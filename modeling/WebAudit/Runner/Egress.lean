import WebAudit.Lib.Rows
import WebAudit.Lib.Runs

/-!
# Egress enforcement across concurrent runs

`module-runner/code-layer.ts`. All runs of code layers in a process share one poisoned `fetch`, counted by the runs that
are active, and one map from a capability's id to the bucket of its attempts. A run clears the buckets of its ids when
it starts; an outcome holds its bucket itself, not a copy, so that the heap of buckets is part of the state.

Any number of runs go on at once, and a capability may go on after its outcome has been read. The poison is in place
exactly while a run is active (`poisoned_iff_active`). What an outcome says is what its capability attempted as long as
no run starts with the id of a capability that is still running, and no attempt reaches a bucket that is not its own
(`outcomes_own`).
-/

namespace WebAudit.Runner.Egress

open WebAudit.Lib

inductive Fetch where
  | real
  | poisoned
  deriving DecidableEq

inductive RunStatus where
  | active
  | returned
  /-- A task has thrown: `Promise.all` rejects, and the other tasks go on. -/
  | rejected
  deriving DecidableEq

/-- A capability's task: it runs until its outcome is read, with the bucket found in the map, if any. -/
inductive TaskPc where
  | running
  | settled (bucket : Option ℕ)
  deriving DecidableEq

structure Task where
  run : ℕ
  capabilityId : String
  pc : TaskPc
  /-- What it has attempted while running; `none` for an argument that cannot be described. -/
  made : List (Option String)
  deriving DecidableEq

structure Process where
  fetch : Fetch
  realFetchRef : Option Fetch
  poisonDepth : ℕ
  /-- `egressViolations`, whose values are positions in `buckets`. -/
  egressViolations : String → Option ℕ
  buckets : List (List String)
  runs : List RunStatus
  tasks : List Task

inductive Action where
  /-- `runCodeLayer`, with the ids of the capabilities that have a code layer. -/
  | runCodeLayer (runnable : List String)
  /-- A task's capability, or what it has left behind, calls `fetch`. -/
  | attempt (task : ℕ) (described : Option String)
  /-- A call of `fetch` outside any capability. -/
  | unattributed (described : Option String)
  | settle (task : ℕ)
  | finish (run : ℕ)
  | reject (run : ℕ)
  deriving DecidableEq

namespace Process

variable (s : Process)

def installPoison : Process :=
  if s.poisonDepth = 0 then
    { s with poisonDepth := s.poisonDepth + 1, realFetchRef := some s.fetch, fetch := .poisoned }
  else { s with poisonDepth := s.poisonDepth + 1 }

def removePoison : Process :=
  match s.poisonDepth - 1, s.realFetchRef with
  | 0, some fetch => { s with poisonDepth := 0, fetch, realFetchRef := none }
  | depth, _ => { s with poisonDepth := depth }

/-- `bucket.push(url)`, in a new bucket when the id has none. -/
def push (id url : String) : Process :=
  match s.egressViolations id with
  | some bucket => { s with buckets := s.buckets.modify bucket (· ++ [url]) }
  | none =>
    { s with
      buckets := s.buckets ++ [[url]]
      egressViolations := Function.update s.egressViolations id (some s.buckets.length) }

/-- `globalThis.fetch(…)`. An argument whose description throws is not recorded. -/
def callFetch (id : String) (described : Option String) : Process :=
  match s.fetch, described with
  | .poisoned, some url => s.push id url
  | _, _ => s

def setTask (i : ℕ) (task : Task) : Process := { s with tasks := s.tasks.set i task }

def setRun (r : ℕ) (status : RunStatus) : Process := { s with runs := s.runs.set r status }

/-- The ids' buckets are cleared, and their tasks begin. -/
def enter (runnable : List String) : Process :=
  { s with
    egressViolations := fun id => if id ∈ runnable then none else s.egressViolations id
    runs := s.runs ++ [.active]
    tasks := s.tasks ++ runnable.map fun id => ⟨s.runs.length, id, .running, []⟩ }

/-- `runCodeLayer`, up to where it waits. -/
def start (runnable : List String) : Process :=
  if runnable = [] then { s with runs := s.runs ++ [.returned] } else (s.enter runnable).installPoison

end Process

def unattributedId : String := "(unattributed)"

def next (s : Process) : Action → Option Process
  | .runCodeLayer runnable => some (s.start runnable)
  | .attempt i described =>
    match s.tasks[i]? with
    | none => none
    | some task =>
      match task.pc with
      | .running => some ((s.callFetch task.capabilityId described).setTask i { task with made := task.made ++ [described] })
      | .settled _ => some (s.callFetch task.capabilityId described)
  | .unattributed described => some (s.callFetch unattributedId described)
  | .settle i =>
    match s.tasks[i]? with
    | none => none
    | some task =>
      match task.pc with
      | .running => some (s.setTask i { task with pc := .settled (s.egressViolations task.capabilityId) })
      | .settled _ => none
  | .finish r =>
    if s.runs[r]? = some .active ∧ ∀ task ∈ s.tasks, task.run = r → task.pc ≠ .running then
      some (s.removePoison.setRun r .returned)
    else none
  | .reject r => if s.runs[r]? = some .active then some (s.removePoison.setRun r .rejected) else none

def step (s : Process) (a : Action) (s' : Process) : Prop := next s a = some s'

/-- A process that has run nothing. -/
def start : Process := ⟨.real, none, 0, fun _ => none, [], [], []⟩

/-! ### The poison -/

variable {s s' : Process} {a : Action} {i r : ℕ} {task : Task} {id url : String} {described : Option String}

def Process.active (s : Process) : ℕ := s.runs.countP (· = .active)

/-- The count is the number of active runs, and the real `fetch` is kept while it is not zero. -/
structure Poison (s : Process) : Prop where
  depth : s.poisonDepth = s.active
  off : s.poisonDepth = 0 → s.fetch = .real ∧ s.realFetchRef = none
  on : 0 < s.poisonDepth → s.fetch = .poisoned ∧ s.realFetchRef = some .real

theorem Process.push_frame (s : Process) (id url : String) : (s.push id url).fetch = s.fetch ∧ (s.push id url).realFetchRef = s.realFetchRef ∧
    (s.push id url).poisonDepth = s.poisonDepth ∧ (s.push id url).runs = s.runs ∧ (s.push id url).tasks = s.tasks := by
  unfold push
  split <;> exact ⟨rfl, rfl, rfl, rfl, rfl⟩

theorem Process.callFetch_frame (s : Process) (id : String) (described : Option String) : (s.callFetch id described).fetch = s.fetch ∧
    (s.callFetch id described).realFetchRef = s.realFetchRef ∧ (s.callFetch id described).poisonDepth = s.poisonDepth ∧
    (s.callFetch id described).runs = s.runs ∧ (s.callFetch id described).tasks = s.tasks := by
  unfold callFetch
  split
  · exact push_frame ..
  · exact ⟨rfl, rfl, rfl, rfl, rfl⟩

theorem Poison.congr (h : Poison s) (hf : s'.fetch = s.fetch) (href : s'.realFetchRef = s.realFetchRef)
    (hd : s'.poisonDepth = s.poisonDepth) (hr : s'.runs = s.runs) : Poison s' := by
  refine ⟨?_, ?_, ?_⟩
  · rw [hd, h.depth, Process.active, Process.active, hr]
  · rw [hd, hf, href]
    exact h.off
  · rw [hd, hf, href]
    exact h.on

theorem Poison.callFetch (h : Poison s) : Poison (s.callFetch id described) := by
  obtain ⟨hf, href, hd, hr, -⟩ := Process.callFetch_frame s id described
  exact h.congr hf href hd hr

/-- A run that ends takes its part of the poison with it. -/
theorem Poison.leave (h : Poison s) (hr : s.runs[r]? = some .active) {status : RunStatus} (hne : status ≠ .active) :
    Poison (s.removePoison.setRun r status) := by
  have hcount : (s.runs.set r status).countP (· = .active) + 1 = s.active := by
    have := countP_set_add (fun st => decide (st = RunStatus.active)) status hr
    simpa [hne, Process.active] using this
  have hdepth := h.depth
  obtain ⟨hfetch, href⟩ := h.on (by omega)
  unfold Process.removePoison
  split
  · rename_i hzero hsome
    rw [href] at hsome
    obtain rfl := Option.some.inj hsome
    refine ⟨?_, fun _ => ⟨rfl, rfl⟩, fun hpos => absurd hpos (Nat.lt_irrefl 0)⟩
    show 0 = (s.runs.set r status).countP (· = .active)
    omega
  · rename_i hnot
    have hpos : s.poisonDepth - 1 ≠ 0 := fun hzero => hnot _ hzero href
    refine ⟨?_, fun hzero => absurd hzero hpos, fun _ => ⟨hfetch, href⟩⟩
    show s.poisonDepth - 1 = (s.runs.set r status).countP (· = .active)
    omega

theorem Poison.start (h : Poison s) (runnable : List String) : Poison (s.start runnable) := by
  have hdepth := h.depth
  unfold Process.start
  split
  · refine ⟨?_, h.off, h.on⟩
    show s.poisonDepth = (s.runs ++ [RunStatus.returned]).countP (· = .active)
    rw [List.countP_append, hdepth]
    rfl
  · have hcount : (s.runs ++ [RunStatus.active]).countP (· = .active) = s.active + 1 := by
      rw [List.countP_append]
      rfl
    unfold Process.installPoison
    split
    · rename_i hzero
      refine ⟨?_, fun h => absurd h (Nat.succ_ne_zero _), fun _ => ⟨rfl, congrArg some (h.off hzero).1⟩⟩
      show s.poisonDepth + 1 = (s.runs ++ [RunStatus.active]).countP (· = .active)
      omega
    · rename_i hpos
      refine ⟨?_, fun h => absurd h (Nat.succ_ne_zero _), fun _ => h.on (Nat.pos_of_ne_zero hpos)⟩
      show s.poisonDepth + 1 = (s.runs ++ [RunStatus.active]).countP (· = .active)
      omega

theorem Poison.step (h : Poison s) (hs : step s a s') : Poison s' := by
  unfold Egress.step next at hs
  cases a with
  | runCodeLayer runnable =>
    obtain rfl := Option.some.inj hs
    exact h.start runnable
  | attempt i described =>
    dsimp only at hs
    split at hs
    · cases hs
    · split at hs <;> obtain rfl := Option.some.inj hs
      · exact (h.callFetch).congr rfl rfl rfl rfl
      · exact h.callFetch
  | unattributed described =>
    obtain rfl := Option.some.inj hs
    exact h.callFetch
  | settle i =>
    dsimp only at hs
    split at hs
    · cases hs
    · split at hs
      · obtain rfl := Option.some.inj hs
        exact h.congr rfl rfl rfl rfl
      · cases hs
  | finish r =>
    dsimp only at hs
    split at hs
    · rename_i hr
      obtain rfl := Option.some.inj hs
      exact h.leave hr.1 (by simp)
    · cases hs
  | reject r =>
    dsimp only at hs
    split at hs
    · rename_i hr
      obtain rfl := Option.some.inj hs
      exact h.leave hr (by simp)
    · cases hs

/-- The poison is in place exactly while a run is active. -/
theorem Poison.poisoned_iff (h : Poison s) : s.fetch = .poisoned ↔ .active ∈ s.runs := by
  have hcount : 0 < s.active ↔ .active ∈ s.runs := by simp [Process.active, List.countP_pos_iff]
  have hdepth := h.depth
  rw [← hcount]
  constructor
  · intro hf
    by_contra hnot
    have := (h.off (by omega)).1
    rw [hf] at this
    cases this
  · intro hpos
    exact (h.on (by omega)).1

theorem poison_start : Poison start := ⟨rfl, fun _ => ⟨rfl, rfl⟩, fun h => absurd h (Nat.lt_irrefl 0)⟩

/-! ### The buckets -/

/-- What a bucket holds; `[]` stands for one that an outcome made itself. -/
def Process.contents (s : Process) : Option ℕ → List String
  | none => []
  | some bucket => s.buckets.getD bucket []

/-- The task's capability is running in a run that is. -/
def Process.Running (s : Process) (task : Task) : Prop := task.pc = .running ∧ s.runs[task.run]? = some .active

/-- An outcome that its run returns, or has returned, holds the bucket. -/
def Process.Holds (s : Process) (task : Task) (bucket : ℕ) : Prop :=
  task.pc = .settled (some bucket) ∧ s.runs[task.run]? ≠ some .rejected

/-- An attempt recorded for the id reaches no bucket that says something of a task. -/
structure Process.Free (s : Process) (id : String) : Prop where
  running : ∀ task ∈ s.tasks, s.Running task → task.capabilityId ≠ id
  held : ∀ task ∈ s.tasks, ∀ bucket, s.egressViolations id = some bucket → ¬ s.Holds task bucket

/-- No run starts with an id twice, or with that of a running capability. An attempt while the poison is in place is one
of a running capability, whose argument can be described, or reaches no bucket that says something of a task. -/
def Apart (s : Process) : Action → Prop
  | .runCodeLayer runnable => runnable.Nodup ∧ ∀ task ∈ s.tasks, s.Running task → task.capabilityId ∉ runnable
  | .attempt i described => ∀ task, s.tasks[i]? = some task →
      s.fetch = .real ∨ (s.Running task ∧ described.isSome) ∨ (¬ s.Running task ∧ s.Free task.capabilityId)
  | .unattributed _ => s.fetch = .real ∨ s.Free unattributedId
  | _ => True

/-- What is said of a running task: its bucket is its own, and holds what it has attempted. -/
structure Process.Own (s : Process) (i : ℕ) (task : Task) : Prop where
  made : task.made = (s.contents (s.egressViolations task.capabilityId)).map some
  unheld : ∀ other ∈ s.tasks, ∀ bucket, s.egressViolations task.capabilityId = some bucket → ¬ s.Holds other bucket
  alone : ∀ (j : ℕ) (other : Task), s.tasks[j]? = some other → s.Running other → other.capabilityId = task.capabilityId → j = i

/-- What is said of an outcome. -/
structure Process.Says (s : Process) (task : Task) (bucket : Option ℕ) : Prop where
  made : task.made = (s.contents bucket).map some
  bound : ∀ b, bucket = some b → b < s.buckets.length

/-- What is kept of the buckets. -/
structure Kept (s : Process) : Prop where
  bound : ∀ id bucket, s.egressViolations id = some bucket → bucket < s.buckets.length
  apart : ∀ id id' bucket, s.egressViolations id = some bucket → s.egressViolations id' = some bucket → id = id'
  running : ∀ (i : ℕ) (task : Task), s.tasks[i]? = some task → s.Running task → s.Own i task
  settled : ∀ task ∈ s.tasks, s.runs[task.run]? ≠ some .rejected → ∀ bucket, task.pc = .settled bucket → s.Says task bucket
  run : ∀ task ∈ s.tasks, task.run < s.runs.length
  done : ∀ task ∈ s.tasks, task.pc = .running → s.runs[task.run]? ≠ some .returned

/-- What recording an attempt does: the id's bucket is the one that it was, or a new one. -/
structure Pushed (s s' : Process) (id url : String) (bucket : ℕ) : Prop where
  violations : s'.egressViolations = Function.update s.egressViolations id (some bucket)
  which : s.egressViolations id = some bucket ∨ (s.egressViolations id = none ∧ bucket = s.buckets.length)
  length : s.buckets.length ≤ s'.buckets.length
  bound : bucket < s'.buckets.length
  contents : s'.contents (some bucket) = s.contents (s.egressViolations id) ++ [url]
  others : ∀ o, o ≠ some bucket → s'.contents o = s.contents o

theorem Kept.pushed (h : Kept s) (id url : String) : ∃ bucket, Pushed s (s.push id url) id url bucket := by
  unfold Process.push
  split
  · rename_i bucket hb
    have hlt := h.bound id bucket hb
    refine ⟨bucket, ?_, .inl hb, by simp, by simpa using hlt, ?_, ?_⟩
    · rw [← hb, Function.update_eq_self]
    · simp [Process.contents, hb, List.getD_eq_getElem?_getD, List.getElem?_eq_getElem hlt]
    · rintro (_ | other) hne
      · rfl
      · have hother : bucket ≠ other := fun heq => hne (congrArg some heq.symm)
        simp [Process.contents, List.getD_eq_getElem?_getD, hother]
  · rename_i hb
    refine ⟨s.buckets.length, rfl, .inr ⟨hb, rfl⟩, by simp, by simp, ?_, ?_⟩
    · simp [Process.contents, hb, List.getD_eq_getElem?_getD]
    · rintro (_ | other) hne
      · rfl
      · have hother : other ≠ s.buckets.length := fun heq => hne (congrArg some heq)
        simp only [Process.contents, List.getD_eq_getElem?_getD]
        rcases Nat.lt_or_ge other s.buckets.length with hlt | hge
        · rw [List.getElem?_append_left hlt]
        · rw [List.getElem?_eq_none hge, List.getElem?_eq_none (by simp; omega)]

/-- The bucket written to belongs to no other id. -/
theorem Kept.ne_of_pushed (h : Kept s) {bucket : ℕ} (hp : Pushed s s' id url bucket) {id' : String} (hne : id' ≠ id) :
    s.egressViolations id' ≠ some bucket := by
  intro heq
  rcases hp.which with hw | ⟨-, hw⟩
  · exact hne (h.apart id' id bucket heq hw)
  · exact absurd (h.bound id' bucket heq) (by omega)

theorem Pushed.violations_ne {bucket : ℕ} (hp : Pushed s s' id url bucket) {id' : String} (hne : id' ≠ id) :
    s'.egressViolations id' = s.egressViolations id' := by
  rw [hp.violations, Function.update_of_ne hne]

theorem Pushed.violations_self {bucket : ℕ} (hp : Pushed s s' id url bucket) : s'.egressViolations id = some bucket := by
  rw [hp.violations, Function.update_self]

theorem Kept.bound_pushed (h : Kept s) {bucket : ℕ} (hp : Pushed s s' id url bucket) :
    ∀ id' b, s'.egressViolations id' = some b → b < s'.buckets.length := by
  intro id' b hb
  by_cases hne : id' = id
  · subst hne
    rw [hp.violations_self] at hb
    obtain rfl := Option.some.inj hb
    exact hp.bound
  · rw [hp.violations_ne hne] at hb
    exact Nat.lt_of_lt_of_le (h.bound id' b hb) hp.length

theorem Kept.apart_pushed (h : Kept s) {bucket : ℕ} (hp : Pushed s s' id url bucket) :
    ∀ id₁ id₂ b, s'.egressViolations id₁ = some b → s'.egressViolations id₂ = some b → id₁ = id₂ := by
  intro id₁ id₂ b h₁ h₂
  by_cases hne₁ : id₁ = id <;> by_cases hne₂ : id₂ = id
  · exact hne₁.trans hne₂.symm
  · subst hne₁
    rw [hp.violations_self] at h₁
    rw [hp.violations_ne hne₂, ← h₁] at h₂
    exact absurd h₂ (h.ne_of_pushed hp hne₂)
  · subst hne₂
    rw [hp.violations_self] at h₂
    rw [hp.violations_ne hne₁, ← h₂] at h₁
    exact absurd h₁ (h.ne_of_pushed hp hne₁)
  · rw [hp.violations_ne hne₁] at h₁
    rw [hp.violations_ne hne₂] at h₂
    exact h.apart id₁ id₂ b h₁ h₂

/-- An outcome's bucket is written to by nothing that may not. -/
theorem Kept.says_pushed (h : Kept s) {bucket : ℕ} (hp : Pushed s s' id url bucket)
    (hunheld : ∀ b, s.egressViolations id = some b → ¬ s.Holds task b) (hmem : task ∈ s.tasks)
    (hrun : s.runs[task.run]? ≠ some .rejected) {b : Option ℕ} (hpc : task.pc = .settled b) : s'.Says task b := by
  have hout := h.settled task hmem hrun b hpc
  have hne : b ≠ some bucket := by
    rintro rfl
    rcases hp.which with hw | ⟨-, hw⟩
    · exact hunheld bucket hw ⟨hpc, hrun⟩
    · exact absurd (hout.bound bucket rfl) (by omega)
  exact ⟨by rw [hp.others b hne, hout.made], fun c hc => Nat.lt_of_lt_of_le (hout.bound c hc) hp.length⟩

/-- An attempt that reaches no bucket of a task. -/
theorem Kept.push_free (h : Kept s) (hfree : s.Free id) : Kept (s.push id url) := by
  obtain ⟨bucket, hp⟩ := h.pushed id url
  obtain ⟨-, -, -, hruns, htasks⟩ := Process.push_frame s id url
  refine ⟨h.bound_pushed hp, h.apart_pushed hp, ?_, ?_, ?_, ?_⟩
  · intro i task hi hrunning
    rw [htasks] at hi
    have hrunning' : s.Running task := ⟨hrunning.1, hruns ▸ hrunning.2⟩
    have hne := hfree.running task (List.mem_of_getElem? hi) hrunning'
    obtain ⟨hmade, hunheld, halone⟩ := h.running i task hi hrunning'
    refine ⟨?_, ?_, ?_⟩
    · rw [hp.violations_ne hne, hp.others _ (h.ne_of_pushed hp hne), hmade]
    · rw [hp.violations_ne hne, htasks]
      intro other hother b hb hholds
      exact hunheld other hother b hb ⟨hholds.1, hruns ▸ hholds.2⟩
    · rw [htasks]
      intro j other hj hr
      exact halone j other hj ⟨hr.1, hruns ▸ hr.2⟩
  · rw [htasks, hruns]
    intro task hmem hrun b hpc
    exact h.says_pushed hp (hfree.held task hmem) hmem hrun hpc
  · rw [htasks, hruns]
    exact h.run
  · rw [htasks, hruns]
    exact h.done

/-- An attempt of a running capability, recorded in its own bucket. -/
theorem Kept.push_own (h : Kept s) (url : String) (hi : s.tasks[i]? = some task) (hrunning : s.Running task) :
    Kept ((s.push task.capabilityId url).setTask i { task with made := task.made ++ [some url] }) := by
  obtain ⟨bucket, hp⟩ := h.pushed task.capabilityId url
  obtain ⟨-, -, -, hruns, htasks⟩ := Process.push_frame s task.capabilityId url
  obtain ⟨hmade, hunheld, halone⟩ := h.running i task hi hrunning
  set u := s.push task.capabilityId url
  set task' : Task := { task with made := task.made ++ [some url] }
  have hset : (u.setTask i task').tasks = s.tasks.set i task' := by
    show u.tasks.set i task' = _
    rw [htasks]
  have hruns' : (u.setTask i task').runs = s.runs := hruns
  have hlt := (List.getElem?_eq_some_iff.mp hi).1
  -- rows other than the one that has attempted are as they were
  have row : ∀ (j : ℕ) (other : Task), (s.tasks.set i task')[j]? = some other →
      (j = i ∧ other = task') ∨ (j ≠ i ∧ s.tasks[j]? = some other) := by
    intro j other hj
    by_cases hji : i = j
    · subst hji
      rw [List.getElem?_set_self hlt] at hj
      exact .inl ⟨rfl, (Option.some.inj hj).symm⟩
    · rw [List.getElem?_set_ne hji] at hj
      exact .inr ⟨Ne.symm hji, hj⟩
  have mem : ∀ other ∈ s.tasks.set i task', other = task' ∨ other ∈ s.tasks := fun other hother =>
    (List.mem_or_eq_of_mem_set hother).symm
  have hp' : Pushed s (u.setTask i task') task.capabilityId url bucket :=
    ⟨hp.violations, hp.which, hp.length, hp.bound, hp.contents, hp.others⟩
  refine ⟨h.bound_pushed hp', h.apart_pushed hp', ?_, ?_, ?_, ?_⟩
  · intro j other hj hr
    rw [hset] at hj
    have hr' : s.Running other := ⟨hr.1, hruns' ▸ hr.2⟩
    have hunheld' : ∀ id', (∀ x ∈ s.tasks, ∀ b, s.egressViolations id' = some b → ¬ s.Holds x b) →
        ∀ x ∈ s.tasks.set i task', ∀ b, s.egressViolations id' = some b → ¬ (u.setTask i task').Holds x b := by
      intro id' hun x hx b hb hholds
      rcases mem x hx with rfl | hx
      · exact absurd (hholds.1.symm.trans hrunning.1) (by simp)
      · exact hun x hx b hb ⟨hholds.1, hruns' ▸ hholds.2⟩
    have halone' : ∀ (k : ℕ) (x : Task), (s.tasks.set i task')[k]? = some x → (u.setTask i task').Running x →
        ∃ y, s.tasks[k]? = some y ∧ s.Running y ∧ y.capabilityId = x.capabilityId := by
      intro k x hk hx
      rcases row k x hk with ⟨rfl, rfl⟩ | ⟨-, hk⟩
      · exact ⟨task, hi, hrunning, rfl⟩
      · exact ⟨x, hk, ⟨hx.1, hruns' ▸ hx.2⟩, rfl⟩
    rcases row j other hj with ⟨rfl, rfl⟩ | ⟨hne, hj⟩
    · refine ⟨?_, ?_, ?_⟩
      · show task.made ++ [some url] = (u.contents (u.egressViolations task.capabilityId)).map some
        rw [hp.violations_self, hp.contents, hmade, List.map_append]
        rfl
      · intro x hx b hb hholds
        rw [hset] at hx
        rcases mem x hx with rfl | hx
        · exact absurd (hholds.1.symm.trans hrunning.1) (by simp)
        · have hb' : bucket = b := Option.some.inj (hp.violations_self.symm.trans hb)
          rcases hp.which with hw | ⟨-, hw⟩
          · exact hunheld x hx b (hb' ▸ hw) ⟨hholds.1, hruns' ▸ hholds.2⟩
          · have := (h.settled x hx (hruns' ▸ hholds.2) (some b) hholds.1).bound b rfl
            omega
      · intro k x hk hx hid
        rw [hset] at hk
        obtain ⟨y, hy, hyr, hyid⟩ := halone' k x hk hx
        exact halone k y hy hyr (hyid.trans hid)
    · have hid : other.capabilityId ≠ task.capabilityId := fun heq => hne (halone j other hj hr' heq)
      obtain ⟨hmade', hun, halone''⟩ := h.running j other hj hr'
      refine ⟨?_, ?_, ?_⟩
      · show other.made = (u.contents (u.egressViolations other.capabilityId)).map some
        rw [hp.violations_ne hid, hp.others _ (h.ne_of_pushed hp hid), hmade']
      · rw [hset]
        intro x hx b hb
        have hb' : s.egressViolations other.capabilityId = some b := (hp.violations_ne hid).symm.trans hb
        exact hunheld' other.capabilityId hun x hx b hb'
      · intro k x hk hx hxid
        rw [hset] at hk
        obtain ⟨y, hy, hyr, hyid⟩ := halone' k x hk hx
        exact halone'' k y hy hyr (hyid.trans hxid)
  · rw [hset, hruns']
    intro other hother hrun b hpc
    rcases mem other hother with rfl | hmem
    · exact absurd (hpc.symm.trans hrunning.1) (by simp)
    · obtain ⟨hm, hb⟩ := h.says_pushed hp (hunheld other hmem) hmem hrun hpc
      exact ⟨hm, hb⟩
  · rw [hset, hruns']
    intro other hother
    rcases mem other hother with rfl | hmem
    · exact h.run task (List.mem_of_getElem? hi)
    · exact h.run other hmem
  · rw [hset, hruns']
    intro other hother hpc
    rcases mem other hother with rfl | hmem
    · exact h.done task (List.mem_of_getElem? hi) hpc
    · exact h.done other hmem hpc

/-- Runs that end, and nothing else. -/
theorem Kept.leave (h : Kept s) (hv : s'.egressViolations = s.egressViolations) (hb : s'.buckets = s.buckets)
    (ht : s'.tasks = s.tasks) (status : RunStatus) (hruns : s'.runs = s.runs.set r status)
    (hr : s.runs[r]? = some .active) (hdone : status = .returned → ∀ task ∈ s.tasks, task.run = r → task.pc ≠ .running) :
    Kept s' := by
  have hlt := (List.getElem?_eq_some_iff.mp hr).1
  have hself : s'.runs[r]? = some status := by rw [hruns, List.getElem?_set_self hlt]
  have hother : ∀ q : ℕ, q ≠ r → s'.runs[q]? = s.runs[q]? := fun q hq => by rw [hruns, List.getElem?_set_ne (Ne.symm hq)]
  have hactive : ∀ q : ℕ, s'.runs[q]? = some RunStatus.active → s.runs[q]? = some RunStatus.active := fun q hq => by
    by_cases hqr : q = r
    · exact hqr ▸ hr
    · rw [← hother q hqr, hq]
  have hrej : ∀ q : ℕ, s'.runs[q]? ≠ some RunStatus.rejected → s.runs[q]? ≠ some RunStatus.rejected := fun q hq => by
    by_cases hqr : q = r
    · rw [hqr, hr]
      simp
    · rwa [← hother q hqr]
  have hcontents : ∀ o, s'.contents o = s.contents o := fun o => by
    cases o with
    | none => rfl
    | some b => simp [Process.contents, hb]
  refine ⟨?_, ?_, ?_, ?_, ?_, ?_⟩
  · rw [hv, hb]
    exact h.bound
  · rw [hv]
    exact h.apart
  · rw [ht]
    intro i task hi hrunning
    obtain ⟨hmade, hunheld, halone⟩ := h.running i task hi ⟨hrunning.1, hactive _ hrunning.2⟩
    refine ⟨by rw [hv, hcontents, hmade], ?_, ?_⟩
    · rw [ht, hv]
      exact fun other hother' b hb' hholds => hunheld other hother' b hb' ⟨hholds.1, hrej _ hholds.2⟩
    · rw [ht]
      exact fun j other hj hrun => halone j other hj ⟨hrun.1, hactive _ hrun.2⟩
  · rw [ht]
    intro task hmem hrun b hpc
    obtain ⟨hmade, hbound⟩ := h.settled task hmem (hrej _ hrun) b hpc
    exact ⟨by rw [hcontents, hmade], by rwa [hb]⟩
  · rw [ht, hruns, List.length_set]
    exact h.run
  · rw [ht]
    intro task hmem hpc hret
    by_cases hqr : task.run = r
    · rw [hqr, hself] at hret
      exact hdone (Option.some.inj hret) task hmem hqr hpc
    · rw [hother _ hqr] at hret
      exact h.done task hmem hpc hret

/-- The task of an ended run, or the reading of an outcome: one row of the tasks is replaced. -/
theorem Kept.setTask (h : Kept s) {task' : Task} (hi : s.tasks[i]? = some task) (hrun : task'.run = task.run)
    (hnot : ¬ s.Running task') (hdone : task'.pc = .running → task.pc = .running)
    (hout : s.runs[task.run]? ≠ some .rejected → ∀ b, task'.pc = .settled b → s.Says task' b)
    (hunheld : ∀ (j : ℕ) (other : Task) b, j ≠ i → s.tasks[j]? = some other → s.Running other →
      s.egressViolations other.capabilityId = some b → ¬ s.Holds task' b) :
    Kept (s.setTask i task') := by
  have hlt := (List.getElem?_eq_some_iff.mp hi).1
  have hset : (s.setTask i task').tasks = s.tasks.set i task' := rfl
  have mem : ∀ other ∈ s.tasks.set i task', other = task' ∨ other ∈ s.tasks := fun other hother =>
    (List.mem_or_eq_of_mem_set hother).symm
  have row : ∀ (j : ℕ) (other : Task), (s.tasks.set i task')[j]? = some other → s.Running other →
      j ≠ i ∧ s.tasks[j]? = some other := by
    intro j other hj hr
    by_cases hji : i = j
    · subst hji
      rw [List.getElem?_set_self hlt] at hj
      obtain rfl := Option.some.inj hj
      exact absurd hr hnot
    · rw [List.getElem?_set_ne hji] at hj
      exact ⟨Ne.symm hji, hj⟩
  refine ⟨h.bound, h.apart, ?_, ?_, ?_, ?_⟩
  · intro j other hj hr
    obtain ⟨hne, hj'⟩ := row j other hj hr
    obtain ⟨hmade, hun, halone⟩ := h.running j other hj' hr
    refine ⟨hmade, ?_, fun k x hk hx hid => halone k x (row k x hk hx).2 hx hid⟩
    intro x hx b hb hholds
    rcases mem x hx with rfl | hx
    · exact hunheld j other b hne hj' hr hb hholds
    · exact hun x hx b hb hholds
  · intro other hother hr b hpc
    rcases mem other hother with rfl | hmem
    · obtain ⟨hm, hb⟩ := hout (hrun ▸ hr) b hpc
      exact ⟨hm, hb⟩
    · obtain ⟨hm, hb⟩ := h.settled other hmem hr b hpc
      exact ⟨hm, hb⟩
  · intro other hother
    rcases mem other hother with rfl | hmem
    · exact hrun ▸ h.run task (List.mem_of_getElem? hi)
    · exact h.run other hmem
  · intro other hother hpc
    rcases mem other hother with rfl | hmem
    · exact hrun ▸ h.done task (List.mem_of_getElem? hi) (hdone hpc)
    · exact h.done other hmem hpc

/-- An outcome is read: it says what its capability has attempted. -/
theorem Kept.settle (h : Kept s) (hi : s.tasks[i]? = some task) (hpc : task.pc = .running) :
    Kept (s.setTask i { task with pc := .settled (s.egressViolations task.capabilityId) }) := by
  have hlive : s.runs[task.run]? ≠ some .rejected → s.Running task := by
    intro hrej
    refine ⟨hpc, ?_⟩
    have hret := h.done task (List.mem_of_getElem? hi) hpc
    have hlt := h.run task (List.mem_of_getElem? hi)
    rcases hst : s.runs[task.run]? with _ | status
    · exact absurd (List.getElem?_eq_none_iff.mp hst) (by omega)
    · cases status with
      | active => rfl
      | returned => exact absurd hst hret
      | rejected => exact absurd hst hrej
  refine h.setTask hi rfl (fun hr => absurd hr.1 (by simp)) (fun hr => absurd hr (by simp)) ?_ ?_
  · intro hrej b hb
    obtain rfl : s.egressViolations task.capabilityId = b := by simpa using hb
    exact ⟨(h.running i task hi (hlive hrej)).made, fun b hb => h.bound _ b hb⟩
  · intro j other b hne hj hr hb hholds
    have hb' : s.egressViolations task.capabilityId = some b := by simpa using hholds.1
    exact hne ((h.running i task hi (hlive hholds.2)).alone j other hj hr (h.apart _ _ b hb hb'))

theorem Process.removePoison_frame (s : Process) : s.removePoison.egressViolations = s.egressViolations ∧
    s.removePoison.buckets = s.buckets ∧ s.removePoison.tasks = s.tasks ∧ s.removePoison.runs = s.runs := by
  unfold removePoison
  split <;> exact ⟨rfl, rfl, rfl, rfl⟩

/-- Only these four fields matter. -/
theorem Kept.same (h : Kept s) (hv : s'.egressViolations = s.egressViolations) (hb : s'.buckets = s.buckets)
    (hr : s'.runs = s.runs) (ht : s'.tasks = s.tasks) : Kept s' := by
  obtain ⟨fetch, ref, depth, violations, buckets, runs, tasks⟩ := s'
  obtain rfl : violations = s.egressViolations := hv
  obtain rfl : buckets = s.buckets := hb
  obtain rfl : runs = s.runs := hr
  obtain rfl : tasks = s.tasks := ht
  refine ⟨h.bound, h.apart, fun i task hi hrun => ?_, fun task hmem hrej b hpc => ?_, h.run, h.done⟩
  · obtain ⟨hmade, hunheld, halone⟩ := h.running i task hi hrun
    exact ⟨hmade, hunheld, halone⟩
  · obtain ⟨hmade, hbound⟩ := h.settled task hmem hrej b hpc
    exact ⟨hmade, hbound⟩

/-- Runs that appear, with no task of their own yet. -/
theorem Kept.append_run (h : Kept s) (hv : ∀ id b, s'.egressViolations id = some b → s.egressViolations id = some b)
    (hclear : ∀ task ∈ s.tasks, s.Running task → s'.egressViolations task.capabilityId = s.egressViolations task.capabilityId)
    (hb : s'.buckets = s.buckets) (ht : s'.tasks = s.tasks) {status : RunStatus} (hruns : s'.runs = s.runs ++ [status]) :
    Kept s' := by
  have hsame : ∀ task ∈ s.tasks, s'.runs[task.run]? = s.runs[task.run]? := fun task hmem => by
    rw [hruns, List.getElem?_append_left (h.run task hmem)]
  have hcontents : ∀ o, s'.contents o = s.contents o := fun o => by
    cases o with
    | none => rfl
    | some b => simp [Process.contents, hb]
  refine ⟨fun id b hid => hb ▸ h.bound id b (hv id b hid), fun id id' b h₁ h₂ => h.apart id id' b (hv id b h₁) (hv id' b h₂),
    ?_, ?_, ?_, ?_⟩
  · rw [ht]
    intro i task hi hrunning
    have hmem := List.mem_of_getElem? hi
    have hrun : s.Running task := ⟨hrunning.1, hsame task hmem ▸ hrunning.2⟩
    obtain ⟨hmade, hunheld, halone⟩ := h.running i task hi hrun
    refine ⟨by rw [hclear task hmem hrun, hcontents, hmade], ?_, ?_⟩
    · rw [ht]
      exact fun other hother b hid hholds => hunheld other hother b (hv _ b hid) ⟨hholds.1, hsame other hother ▸ hholds.2⟩
    · rw [ht]
      exact fun j other hj hr => halone j other hj ⟨hr.1, hsame other (List.mem_of_getElem? hj) ▸ hr.2⟩
  · rw [ht]
    intro task hmem hrej b hpc
    obtain ⟨hmade, hbound⟩ := h.settled task hmem (hsame task hmem ▸ hrej) b hpc
    exact ⟨by rw [hcontents, hmade], by rwa [hb]⟩
  · rw [ht, hruns]
    intro task hmem
    have := h.run task hmem
    rw [List.length_append]
    omega
  · rw [ht]
    intro task hmem hpc
    rw [hsame task hmem]
    exact h.done task hmem hpc

/-- A task that begins, with no bucket, and an id that no running capability has. -/
theorem Kept.append_task (h : Kept s) (task : Task) (hbegin : task.pc = .running ∧ task.made = [])
    (hrun : s.runs[task.run]? = some .active) (hnone : s.egressViolations task.capabilityId = none)
    (halone : ∀ other ∈ s.tasks, s.Running other → other.capabilityId ≠ task.capabilityId) :
    Kept { s with tasks := s.tasks ++ [task] } := by
  have row : ∀ (j : ℕ) (other : Task), (s.tasks ++ [task])[j]? = some other →
      s.tasks[j]? = some other ∨ (j = s.tasks.length ∧ other = task) := by
    intro j other hj
    by_cases hlt : j < s.tasks.length
    · exact .inl (by rwa [List.getElem?_append_left hlt] at hj)
    · rw [List.getElem?_append_right (by omega)] at hj
      have hj0 := (List.getElem?_eq_some_iff.mp hj).1
      rw [List.length_singleton] at hj0
      rw [show j - s.tasks.length = 0 by omega] at hj
      exact .inr ⟨by omega, (Option.some.inj hj).symm⟩
  have mem : ∀ other ∈ s.tasks ++ [task], other ∈ s.tasks ∨ other = task := fun other hother => by simpa using hother
  have hunheld : ∀ b, ¬ s.Holds task b := fun b hholds => absurd (hholds.1.symm.trans hbegin.1) (by simp)
  refine ⟨h.bound, h.apart, ?_, ?_, ?_, ?_⟩
  · intro i other hi hr
    rcases row i other hi with hi' | ⟨rfl, rfl⟩
    · obtain ⟨hmade, hun, hal⟩ := h.running i other hi' hr
      refine ⟨hmade, fun x hx b hb hholds => ?_, fun j x hj hxr hid => ?_⟩
      · rcases mem x hx with hx | rfl
        · exact hun x hx b hb hholds
        · exact hunheld b hholds
      · rcases row j x hj with hj' | ⟨rfl, rfl⟩
        · exact hal j x hj' hxr hid
        · exact absurd hid.symm (halone other (List.mem_of_getElem? hi') hr)
    · refine ⟨?_, fun x hx b hb => ?_, fun j x hj hxr hid => ?_⟩
      · show other.made = (s.contents (s.egressViolations other.capabilityId)).map some
        rw [hnone, hbegin.2]
        rfl
      · exact absurd (hnone.symm.trans hb) (by simp)
      · rcases row j x hj with hj | ⟨rfl, -⟩
        · exact absurd hid (halone x (List.mem_of_getElem? hj) hxr)
        · rfl
  · intro other hother hrej b hpc
    rcases mem other hother with hmem | rfl
    · obtain ⟨hm, hb⟩ := h.settled other hmem hrej b hpc
      exact ⟨hm, hb⟩
    · exact absurd (hpc.symm.trans hbegin.1) (by simp)
  · intro other hother
    rcases mem other hother with hmem | rfl
    · exact h.run other hmem
    · exact (List.getElem?_eq_some_iff.mp hrun).1
  · intro other hother hpc
    rcases mem other hother with hmem | rfl
    · exact h.done other hmem hpc
    · show s.runs[other.run]? ≠ some .returned
      rw [hrun]
      simp

theorem Kept.append_tasks {r : ℕ} {runnable : List String} (h : Kept s) (hrun : s.runs[r]? = some .active) (hnodup : runnable.Nodup)
    (hnone : ∀ id ∈ runnable, s.egressViolations id = none)
    (halone : ∀ other ∈ s.tasks, s.Running other → other.capabilityId ∉ runnable) :
    Kept { s with tasks := s.tasks ++ runnable.map fun id => ⟨r, id, .running, []⟩ } := by
  induction runnable generalizing s with
  | nil => simpa using h
  | cons id rest ih =>
    obtain ⟨hid, hrest⟩ := List.nodup_cons.mp hnodup
    have hone := h.append_task ⟨r, id, .running, []⟩ ⟨rfl, rfl⟩ hrun (hnone id (by simp))
      fun other hother hr heq => halone other hother hr (heq ▸ by simp)
    have := ih hone hrun hrest (fun x hx => hnone x (by simp [hx])) ?_
    · simpa using this
    · intro other hother hr hmem
      rcases List.mem_append.mp hother with hother | hother
      · exact halone other hother hr (by simp [hmem])
      · obtain rfl := List.mem_singleton.mp hother
        exact hid hmem

theorem Kept.start (h : Kept s) {runnable : List String} (hnodup : runnable.Nodup)
    (halone : ∀ task ∈ s.tasks, s.Running task → task.capabilityId ∉ runnable) : Kept (s.start runnable) := by
  unfold Process.start
  split
  · exact h.append_run (fun _ _ h => h) (fun _ _ _ => rfl) rfl rfl rfl
  · let u : Process :=
      { s with
        egressViolations := fun id => if id ∈ runnable then none else s.egressViolations id
        runs := s.runs ++ [.active] }
    have hu : Kept u := by
      refine h.append_run (fun id b hid => ?_) (fun task hmem hr => if_neg (halone task hmem hr)) rfl rfl rfl
      by_contra hne
      have : u.egressViolations id = if id ∈ runnable then none else s.egressViolations id := rfl
      rw [this] at hid
      split at hid
      · cases hid
      · exact hne hid
    have hrun : u.runs[s.runs.length]? = some .active := by simp [u]
    have hin := hu.append_tasks hrun hnodup (fun id hid => if_pos hid) fun other hother hr => by
      refine halone other hother ⟨hr.1, ?_⟩
      have := hr.2
      simp only [u] at this
      rwa [List.getElem?_append_left (h.run other hother)] at this
    have hframe : Kept (s.enter runnable) := hin
    unfold Process.installPoison
    split
    · exact hframe.same rfl rfl rfl rfl
    · exact hframe.same rfl rfl rfl rfl

theorem Kept.step (h : Kept s) (hp : Poison s) (hs : step s a s') (hapart : Apart s a) : Kept s' := by
  unfold Egress.step next at hs
  cases a with
  | runCodeLayer runnable =>
    obtain rfl := Option.some.inj hs
    exact h.start hapart.1 hapart.2
  | attempt i described =>
    dsimp only at hs
    split at hs
    · cases hs
    · rename_i task hi
      have hcases := hapart task hi
      have hlate : ¬ s.Running task → Kept (s.callFetch task.capabilityId described) := by
        intro hnot
        unfold Process.callFetch
        split
        · rename_i hf
          rcases hcases with hreal | ⟨hrun, -⟩ | ⟨-, hfree⟩
          · rw [hf] at hreal
            cases hreal
          · exact absurd hrun hnot
          · exact h.push_free hfree
        · exact h
      split at hs
      · rename_i hpc
        obtain rfl := Option.some.inj hs
        by_cases hrun : s.Running task
        · have hf := hp.poisoned_iff.mpr (List.mem_of_getElem? hrun.2)
          rcases hcases with hreal | ⟨-, hsome⟩ | ⟨hnot, -⟩
          · rw [hf] at hreal
            cases hreal
          · obtain ⟨url, rfl⟩ := Option.isSome_iff_exists.mp hsome
            have hpush := h.push_own url hi hrun
            unfold Process.callFetch
            rwa [hf]
          · exact absurd hrun hnot
        · -- the run was rejected: what its tasks attempt is in no outcome
          have htasks : (s.callFetch task.capabilityId described).tasks = s.tasks :=
            (Process.callFetch_frame ..).2.2.2.2
          have hruns : (s.callFetch task.capabilityId described).runs = s.runs :=
            (Process.callFetch_frame ..).2.2.2.1
          have hi' : (s.callFetch task.capabilityId described).tasks[i]? = some task := by rw [htasks, hi]
          refine (hlate hrun).setTask hi' rfl ?_ (fun _ => hpc) ?_ ?_
          · rintro ⟨-, hact⟩
            rw [hruns] at hact
            exact hrun ⟨hpc, hact⟩
          · intro _ b hb
            exact absurd (hb.symm.trans hpc) (by simp)
          · intro _ _ b _ _ _ _ hholds
            exact absurd (hholds.1.symm.trans hpc) (by simp)
      · rename_i hpc
        obtain rfl := Option.some.inj hs
        exact hlate fun hrun => absurd (hpc.symm.trans hrun.1) (by simp)
  | unattributed described =>
    obtain rfl := Option.some.inj hs
    unfold Process.callFetch
    split
    · rename_i hf
      rcases hapart with hreal | hfree
      · rw [hf] at hreal
        cases hreal
      · exact h.push_free hfree
    · exact h
  | settle i =>
    dsimp only at hs
    split at hs
    · cases hs
    · rename_i task hi
      split at hs
      · rename_i hpc
        obtain rfl := Option.some.inj hs
        exact h.settle hi hpc
      · cases hs
  | finish r =>
    dsimp only at hs
    split at hs
    · rename_i hr
      obtain rfl := Option.some.inj hs
      obtain ⟨hv, hb, ht, hruns⟩ := Process.removePoison_frame s
      exact h.leave hv hb ht .returned (by rw [← hruns]; rfl) hr.1 fun _ => hr.2
    · cases hs
  | reject r =>
    dsimp only at hs
    split at hs
    · rename_i hr
      obtain rfl := Option.some.inj hs
      obtain ⟨hv, hb, ht, hruns⟩ := Process.removePoison_frame s
      exact h.leave hv hb ht .rejected (by rw [← hruns]; rfl) hr fun h => absurd h (by simp)
    · cases hs

theorem kept_start : Kept start := by
  refine ⟨fun _ _ h => absurd h (by simp [start]), fun _ _ _ h => absurd h (by simp [start]), ?_, ?_, ?_, ?_⟩ <;> simp [start]

/-! ### The outcomes -/

/-- What a returned outcome says is what its capability attempted in its own run before the outcome was read. -/
def Process.OutcomesOwn (s : Process) : Prop :=
  ∀ task ∈ s.tasks, s.runs[task.run]? = some .returned → ∃ bucket, task.pc = .settled bucket ∧
    task.made = (s.contents bucket).map some

/-- **Egress enforcement**: the poison is in place exactly while a code layer runs; and outcomes say what their own
capabilities attempted, and nothing else, in every run in which ids and attempts keep apart. -/
theorem outcomes_own (h : Reaches (Guarded step fun s a _ => Apart s a) start s) :
    (s.fetch = .poisoned ↔ .active ∈ s.runs) ∧ s.OutcomesOwn := by
  have hinv := h.inv (I := fun s => Poison s ∧ Kept s) ⟨poison_start, kept_start⟩ fun _ _ _ hu hs =>
    ⟨hu.1.step hs.1, hu.2.step hu.1 hs.1 hs.2⟩
  refine ⟨hinv.1.poisoned_iff, fun task hmem hret => ?_⟩
  cases hpc : task.pc with
  | running => exact absurd hret (hinv.2.done task hmem hpc)
  | settled bucket => exact ⟨bucket, rfl, (hinv.2.settled task hmem (by simp [hret]) bucket hpc).made⟩

/-- Two scans run one capability. The second run clears what the first's has attempted, and gets what it attempts next. -/
def overlapping : List Action :=
  [.runCodeLayer ["headers"], .attempt 0 (some "https://a.example"), .runCodeLayer ["headers"],
    .attempt 0 (some "https://b.example"), .settle 0, .settle 1, .finish 0, .finish 1]

/-- The first run's outcome lacks an attempt of its own, and the second's has one of the first's. -/
theorem outcomes_mixed : ∃ s, Reaches step start s ∧ s.runs = [.returned, .returned] ∧
    s.tasks = [⟨0, "headers", .settled (some 1), [some "https://a.example", some "https://b.example"]⟩,
      ⟨1, "headers", .settled (some 1), []⟩] ∧
    s.contents (some 1) = ["https://b.example"] ∧ ¬ s.OutcomesOwn := by
  obtain ⟨s, hs, hruns, htasks, hcontents⟩ := Reaches.exists_of_play next (fun _ _ => true) start overlapping
    (fun s => s.runs = [.returned, .returned] ∧
      s.tasks = [⟨0, "headers", .settled (some 1), [some "https://a.example", some "https://b.example"]⟩,
        ⟨1, "headers", .settled (some 1), []⟩] ∧
      s.contents (some 1) = ["https://b.example"]) (by decide)
  refine ⟨s, hs.of_guarded, hruns, htasks, hcontents, fun hown => ?_⟩
  obtain ⟨bucket, hpc, hmade⟩ := hown ⟨1, "headers", .settled (some 1), []⟩ (by simp [htasks]) (by simp [hruns])
  obtain rfl := TaskPc.settled.inj hpc
  simp [hcontents] at hmade

/-- One run, whose capability attempts something once. -/
theorem outcomes_own_one : ∃ s : Process, s.OutcomesOwn ∧ s.runs = [.returned] ∧
    s.tasks.map (·.made) = [[some "https://a.example"]] := by
  obtain ⟨s, hs, hp⟩ := Reaches.exists_of_play next
    (fun s a => match a with
      | .runCodeLayer runnable => decide (runnable.Nodup ∧ s.tasks = [])
      | .attempt i described => decide (s.tasks.all (fun task => task.pc = .running ∧ s.runs[task.run]? = some .active) ∧
          described.isSome ∧ i < s.tasks.length)
      | .unattributed _ => false
      | _ => true) start
    [.runCodeLayer ["headers"], .attempt 0 (some "https://a.example"), .settle 0, .finish 0]
    (fun s => s.runs = [.returned] ∧ s.tasks.map (·.made) = [[some "https://a.example"]]) (by decide)
  refine ⟨s, (outcomes_own (hs.mono fun u a _ hu => ⟨hu.1, ?_⟩)).2, hp⟩
  have hcheck := hu.2
  cases a with
  | runCodeLayer runnable =>
    obtain ⟨hnodup, hnil⟩ : runnable.Nodup ∧ u.tasks = [] := by simpa using hcheck
    exact ⟨hnodup, by simp [hnil]⟩
  | attempt i described =>
    intro task hi
    obtain ⟨hall, hsome, -⟩ := by simpa using hcheck
    exact .inr (.inl ⟨hall task (List.mem_of_getElem? hi), hsome⟩)
  | unattributed => simp at hcheck
  | settle => trivial
  | finish => trivial
  | reject => trivial

end WebAudit.Runner.Egress
