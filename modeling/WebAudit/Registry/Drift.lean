import WebAudit.Registry.Snapshot

/-!
# The capabilities that the phases of a scan run

While operators change rows and bundles, a phase's job reads what each of its modules requires, reconfirms the target's
level, reads what is enabled, and calls what its process has loaded of that (`orchestrator/orchestrator.ts`). A process
discovers the installed bundles once, and loads the code of a module once (`orchestrator/capability-loader.ts`). A job
may be delivered again, to any process. One step is one read, one change, or the calls of one module.

`Held` is what the snapshot promises: the calls of every module are those that the scan's start resolved.
-/

namespace WebAudit.Registry

open WebAudit.Lib WebAudit.Lib.Uri WebAudit.Scans WebAudit.Runner

/-! ### The system -/

/-- What a worker process has cached. -/
structure Process where
  discovered : Option (List InstalledBundle)
  loaded : ModuleType → Option (List CapabilityCode)

/-- The registry as a scan finds it at its start. -/
structure Start where
  table : CapabilityTable
  disk : Disk
  context : SnapshotContext

/-- Where a phase's job is. -/
inductive PhasePc where
  | levels (unread : List ModuleType) (read : ModuleType → List (Text × ControlLevel))
  | enabled (read : ModuleType → List (Text × ControlLevel)) (level : ControlLevel)
  | running (read : ModuleType → List (Text × ControlLevel)) (level : ControlLevel) (enabled : ModuleType → List Text)
    (unstarted : List ModuleType)
  | failed

structure PhaseJob where
  process : ℕ
  modules : List ModuleType
  pc : PhasePc

/-- The capabilities that a module was run with, and the level that each was taken to require. -/
structure ModuleRun where
  module : ModuleType
  invoked : List (Text × ControlLevel)
  deriving DecidableEq

structure Scene where
  table : CapabilityTable
  disk : Disk
  processes : ℕ → Process
  /-- Of the scan, once it is created. -/
  start : Option Start
  jobs : List PhaseJob
  runs : List ModuleRun

inductive Action where
  | change (change : Change)
  | createScan (context : SnapshotContext)
  | deliver (process : ℕ) (modules : List ModuleType)
  | load (process : ℕ) (module : ModuleType)
  | readLevels (job : ℕ) (module : ModuleType)
  | reconfirm (job : ℕ) (reconfirmed : Option ControlLevel)
  | readEnabled (job : ℕ)
  | run (job : ℕ) (module : ModuleType)
  deriving DecidableEq

/-- A bundle is discovered once, and its entrypoint is read when its module is loaded. -/
def readNow (installed : List InstalledBundle) (bundle : InstalledBundle) : InstalledBundle :=
  { bundle with readable := installed.any fun b => b.id = bundle.id ∧ b.readable = true }

def Process.load (process : Process) (disk : Disk) (module : ModuleType) : Process :=
  let discovered := process.discovered.getD disk.installed
  let codes := loadModuleCapabilities { disk with installed := discovered.map (readNow disk.installed) } module
  ⟨some discovered, Function.update process.loaded module (some ((process.loaded module).getD codes))⟩

/-- Those of the loaded capabilities that are enabled, and that require no more than the level. -/
def invoked (codes : List CapabilityCode) (enabled : List Text) (levels : List (Text × ControlLevel)) (level : ControlLevel) :
    List (Text × ControlLevel) :=
  ((loadCapabilities codes (some enabled)).filter fun code => !code.isGated level (fun id => levels.lookup id)).map fun code =>
    (code.id, (levels.lookup code.id).getD .NONE)

namespace Scene

variable (s : Scene)

def goes (k : ℕ) (job : PhaseJob) (pc : PhasePc) : Scene := { s with jobs := s.jobs.set k { job with pc } }

def next : Action → Option Scene
  | .change change => some { s with table := s.table.change change, disk := { s.disk with installed := changeInstalled s.disk.installed change } }
  | .createScan context => if s.start.isSome then none else some { s with start := some ⟨s.table, s.disk, context⟩ }
  | .deliver process modules => s.start.bind fun start =>
    if modules.all (start.context.requestedModules.contains ·) then some { s with jobs := s.jobs ++ [⟨process, modules, .levels modules fun _ => []⟩] }
    else none
  | .load process module => some { s with processes := Function.update s.processes process ((s.processes process).load s.disk module) }
  | .readLevels k module => s.jobs[k]?.bind fun job =>
    match job.pc with
    | .levels unread read =>
      if module ∈ unread then
        some (s.goes k job (.levels (unread.filter (· ≠ module)) (Function.update read module (requiredControlLevelsFor s.table.rows module))))
      else none
    | _ => none
  | .reconfirm k reconfirmed => s.jobs[k]?.bind fun job =>
    match job.pc with
    | .levels [] read => some (s.goes k job ((resolvePhaseControlLevel (job.modules.flatMap read) reconfirmed).elim .failed (.enabled read)))
    | _ => none
  | .readEnabled k => s.jobs[k]?.bind fun job =>
    match job.pc with
    | .enabled read level => some (s.goes k job (.running read level (enabledCapabilityIdsFor s.table.rows) job.modules))
    | _ => none
  | .run k module => s.jobs[k]?.bind fun job =>
    match job.pc with
    | .running read level enabled unstarted =>
      if module ∈ unstarted then
        ((s.processes job.process).loaded module).map fun codes =>
          { s.goes k job (.running read level enabled (unstarted.filter (· ≠ module))) with
            runs := s.runs ++ [⟨module, invoked codes (enabled module) (read module) level⟩] }
      else none
    | _ => none

end Scene

/-! ### What the snapshot promises -/

namespace Start

variable (start : Start)

def snapshot : List SnapshotEntry := resolveSnapshot (registryOf start.table.rows start.disk) start.context

/-- The capabilities of a run are those that the snapshot has as eligible, and each was taken to require what it required. -/
structure Matches (run : ModuleRun) : Prop where
  ids : ∀ id, id ∈ run.invoked.map (·.1) ↔ id ∈ (eligibleEntries start.snapshot run.module).map (·.capabilityId)
  levels : ∀ p ∈ run.invoked, ∃ row ∈ start.table.rows, row.id = p.1 ∧ row.requiredControlLevel = p.2

/-- A row that the scan's start found enabled in a module. -/
def Has (module : ModuleType) (row : CapabilityRow) : Prop := row ∈ start.table.rows ∧ row.module = module ∧ row.isEnabled = true

/-- The levels read for a module are those that its rows had. -/
def LevelsKept (module : ModuleType) (levels : List (Text × ControlLevel)) : Prop :=
  ∀ row, start.Has module row → levels.lookup row.id = some row.requiredControlLevel

/-- What is read as enabled in a module is what was. -/
def EnabledKept (module : ModuleType) (enabled : List Text) : Prop :=
  ∀ id, id ∈ enabled ↔ id ∈ enabledCapabilityIdsFor start.table.rows module

/-- On disk, in the plan, with its inputs there, and no more required than the scan's level. -/
def Admits (row : CapabilityRow) : Prop :=
  row.id ∈ start.disk.ids ∧ row.allows start.context.planId = true ∧ (row.requiresCode = true → start.context.hasCode = true) ∧
    (row.requiresScreenshot = true → start.context.hasScreenshot = true) ∧
    controlLevelRank row.requiredControlLevel ≤ controlLevelRank start.context.controlLevel

/-- What a process has loaded, and the reconfirmed level reaches, is what the start admits. -/
def ReachKept (module : ModuleType) (codes : List CapabilityCode) (level : ControlLevel) : Prop :=
  ∀ row, start.Has module row →
    (((∃ code ∈ codes, code.id = row.id) ∧ controlLevelRank row.requiredControlLevel ≤ controlLevelRank level) ↔ start.Admits row)

end Start

namespace Scene

variable (s : Scene)

/-- One capability set for the scan. -/
def Held : Prop := ∀ start ∈ s.start, ∀ run ∈ s.runs, start.Matches run

/-- Nothing that this step reads has changed since the scan's start, in the modules of the job. -/
def Steady : Action → Prop
  | .readLevels _ module => ∀ start ∈ s.start, start.LevelsKept module (requiredControlLevelsFor s.table.rows module)
  | .readEnabled k => ∀ start ∈ s.start, ∀ job ∈ s.jobs[k]?, ∀ module ∈ job.modules,
    start.EnabledKept module (enabledCapabilityIdsFor s.table.rows module)
  | .run k module => ∀ start ∈ s.start, ∀ job ∈ s.jobs[k]?, ∀ codes ∈ (s.processes job.process).loaded module,
    ∀ read level enabled unstarted, job.pc = .running read level enabled unstarted → start.ReachKept module codes level
  | _ => True

end Scene

/-! ### Runs and entries -/

section Invoked

variable {start : Start} {module : ModuleType} {codes : List CapabilityCode} {enabled : List Text} {levels : List (Text × ControlLevel)}
  {level : ControlLevel} {row : CapabilityRow} {id : Text} {p : Text × ControlLevel}

theorem mem_invoked : p ∈ invoked codes enabled levels level ↔ ∃ code ∈ codes, code.id ∈ enabled ∧
    controlLevelRank ((levels.lookup code.id).getD .NONE) ≤ controlLevelRank level ∧ (code.id, (levels.lookup code.id).getD .NONE) = p := by
  unfold invoked loadCapabilities CapabilityCode.isGated
  simp only [List.mem_map, List.mem_filter, List.contains_iff_mem, Bool.not_eq_true', decide_eq_false_iff_not, not_lt, and_assoc]

theorem statusFor_eligible {context : SnapshotContext} : statusFor row context = .ELIGIBLE ↔ row.allows context.planId = true ∧
    (row.requiresCode = true → context.hasCode = true) ∧ (row.requiresScreenshot = true → context.hasScreenshot = true) ∧
    controlLevelRank row.requiredControlLevel ≤ controlLevelRank context.controlLevel := by
  unfold statusFor
  cases row.allows context.planId <;> cases row.requiresCode <;> cases context.hasCode <;> cases row.requiresScreenshot <;>
    cases context.hasScreenshot <;> simp

/-- What is eligible in a requested module: the rows that were enabled there, and that the start admits. -/
theorem mem_eligible (hmodule : module ∈ start.context.requestedModules) :
    id ∈ (eligibleEntries start.snapshot module).map (·.capabilityId) ↔ ∃ row, start.Has module row ∧ start.Admits row ∧ row.id = id := by
  have hrequested : ¬ start.context.requestedModules.isEmpty = true := by
    rw [List.isEmpty_iff]
    exact List.ne_nil_of_mem hmodule
  unfold eligibleEntries Start.snapshot resolveSnapshot registryOf
  rw [if_neg hrequested]
  simp only [List.mem_map, List.mem_filter, List.mem_flatMap, List.contains_iff_mem, decide_eq_true_eq]
  constructor
  · rintro ⟨_, ⟨⟨_, -, row, ⟨⟨hrow, hdisk⟩, rfl, henabled⟩, rfl⟩, hstatus, rfl⟩, rfl⟩
    exact ⟨row, ⟨hrow, rfl, henabled⟩, ⟨hdisk, statusFor_eligible.mp hstatus⟩, rfl⟩
  · rintro ⟨row, ⟨hrow, rfl, henabled⟩, ⟨hdisk, hadmits⟩, rfl⟩
    exact ⟨entryOf start.context row, ⟨⟨row.module, hmodule, row, ⟨⟨hrow, hdisk⟩, rfl, henabled⟩, rfl⟩, statusFor_eligible.mpr hadmits, rfl⟩, rfl⟩

/-- **A module that is run with what the start had**, of the code that the start admits, is run as the snapshot has it. -/
theorem matches_invoked (hmodule : module ∈ start.context.requestedModules) (hlevels : start.LevelsKept module levels)
    (henabled : start.EnabledKept module enabled) (hreach : start.ReachKept module codes level) :
    start.Matches ⟨module, invoked codes enabled levels level⟩ := by
  have hrow (code : CapabilityCode) (hcode : code.id ∈ enabled) :
      ∃ row, start.Has module row ∧ row.id = code.id ∧ levels.lookup code.id = some row.requiredControlLevel := by
    obtain ⟨row, hrow, hin, hon, hid⟩ := mem_enabledCapabilityIdsFor.mp ((henabled code.id).mp hcode)
    exact ⟨row, ⟨hrow, hin, hon⟩, hid, hid ▸ hlevels row ⟨hrow, hin, hon⟩⟩
  refine ⟨fun id => ?_, fun p hp => ?_⟩
  · rw [mem_eligible hmodule, List.mem_map]
    constructor
    · rintro ⟨p, hp, rfl⟩
      obtain ⟨code, hcode, hon, hrank, rfl⟩ := mem_invoked.mp hp
      obtain ⟨row, hhas, hid, hlookup⟩ := hrow code hon
      rw [hlookup, Option.getD_some] at hrank
      exact ⟨row, hhas, (hreach row hhas).mp ⟨⟨code, hcode, hid.symm⟩, hrank⟩, hid⟩
    · rintro ⟨row, hhas, hadmits, rfl⟩
      obtain ⟨⟨code, hcode, hid⟩, hrank⟩ := (hreach row hhas).mpr hadmits
      have hon : row.id ∈ enabled := (henabled row.id).mpr (mem_enabledCapabilityIdsFor.mpr ⟨row, hhas.1, hhas.2.1, hhas.2.2, rfl⟩)
      have hlookup : (levels.lookup code.id).getD .NONE = row.requiredControlLevel := by rw [hid, hlevels row hhas, Option.getD_some]
      exact ⟨_, mem_invoked.mpr ⟨code, hcode, hid ▸ hon, hlookup ▸ hrank, rfl⟩, hid⟩
  · obtain ⟨code, -, hon, -, rfl⟩ := mem_invoked.mp hp
    obtain ⟨row, hhas, hid, hlookup⟩ := hrow code hon
    exact ⟨row, hhas.1, hid, by rw [hlookup, Option.getD_some]⟩

end Invoked

/-! ### Runs -/

/-- What a job has read so far is what the start had. -/
def Start.JobKept (start : Start) (job : PhaseJob) : Prop :=
  match job.pc with
  | .levels unread read => ∀ module ∈ job.modules, module ∉ unread → start.LevelsKept module (read module)
  | .enabled read _ => ∀ module ∈ job.modules, start.LevelsKept module (read module)
  | .running read _ enabled unstarted => (∀ module ∈ unstarted, module ∈ job.modules) ∧
    ∀ module ∈ job.modules, start.LevelsKept module (read module) ∧ start.EnabledKept module (enabled module)
  | .failed => True

namespace Scene

/-- A scene before the scan is created; processes may have cached anything. -/
def initial (table : CapabilityTable) (disk : Disk) (processes : ℕ → Process) : Scene := ⟨table, disk, processes, none, [], []⟩

def Step (s : Scene) (a : Action) (s' : Scene) : Prop := s.next a = some s'

structure Kept (s : Scene) : Prop where
  jobs_of_start : s.start = none → s.jobs = [] ∧ s.runs = []
  requested : ∀ start ∈ s.start, ∀ job ∈ s.jobs, ∀ module ∈ job.modules, module ∈ start.context.requestedModules
  jobs : ∀ start ∈ s.start, ∀ job ∈ s.jobs, start.JobKept job
  held : s.Held

variable {s s' : Scene} {a : Action} {k : ℕ} {job : PhaseJob} {pc : PhasePc} {module : ModuleType}

theorem kept_initial (table : CapabilityTable) (disk : Disk) (processes : ℕ → Process) : (initial table disk processes).Kept :=
  ⟨fun _ => ⟨rfl, rfl⟩, nofun, nofun, nofun⟩

/-- A job goes on with what it has read, and what it has read was kept. -/
theorem Kept.goes (h : s.Kept) (hjob : s.jobs[k]? = some job)
    (hpc : ∀ start ∈ s.start, start.JobKept job → (∀ module ∈ job.modules, module ∈ start.context.requestedModules) → start.JobKept { job with pc }) :
    (s.goes k job pc).Kept := by
  have hmem := List.mem_of_getElem? hjob
  refine ⟨fun hnone => ?_, fun start hstart job' hjob' module hmodule => ?_, fun start hstart job' hjob' => ?_, h.held⟩
  · rw [(h.jobs_of_start hnone).1] at hmem
    cases hmem
  · rcases List.mem_or_eq_of_mem_set hjob' with hjob' | rfl
    · exact h.requested start hstart job' hjob' module hmodule
    · exact h.requested start hstart job hmem module hmodule
  · rcases List.mem_or_eq_of_mem_set hjob' with hjob' | rfl
    · exact h.jobs start hstart job' hjob'
    · exact hpc start hstart (h.jobs start hstart job hmem) (h.requested start hstart job hmem)

theorem kept_readLevels (h : s.Kept) (hsteady : s.Steady (.readLevels k module)) (hs : s.next (.readLevels k module) = some s') : s'.Kept := by
  obtain ⟨job, hjob, hs⟩ := Option.bind_eq_some_iff.mp hs
  split at hs
  · next unread read hpc =>
    split at hs
    · cases hs
      refine h.goes hjob fun start hstart hkept _ module' hmodule' hread => ?_
      unfold Start.JobKept at hkept
      rw [hpc] at hkept
      by_cases heq : module' = module
      · subst heq
        rw [Function.update_self]
        exact hsteady start hstart
      · rw [Function.update_of_ne heq]
        exact hkept module' hmodule' fun hunread => hread (List.mem_filter.mpr ⟨hunread, decide_eq_true heq⟩)
    · cases hs
  · cases hs

theorem kept_reconfirm {reconfirmed : Option ControlLevel} (h : s.Kept) (hs : s.next (.reconfirm k reconfirmed) = some s') : s'.Kept := by
  obtain ⟨job, hjob, hs⟩ := Option.bind_eq_some_iff.mp hs
  split at hs
  · next read hpc =>
    cases hs
    refine h.goes hjob fun start hstart hkept _ => ?_
    unfold Start.JobKept at hkept
    rw [hpc] at hkept
    cases resolvePhaseControlLevel (job.modules.flatMap read) reconfirmed with
    | none => trivial
    | some level => exact fun module hmodule => hkept module hmodule List.not_mem_nil
  · cases hs

theorem kept_readEnabled (h : s.Kept) (hsteady : s.Steady (.readEnabled k)) (hs : s.next (.readEnabled k) = some s') : s'.Kept := by
  obtain ⟨job, hjob, hs⟩ := Option.bind_eq_some_iff.mp hs
  split at hs
  · next read level hpc =>
    cases hs
    refine h.goes hjob fun start hstart hkept _ => ?_
    unfold Start.JobKept at hkept
    rw [hpc] at hkept
    exact ⟨fun _ hmodule => hmodule, fun module hmodule => ⟨hkept module hmodule, hsteady start hstart job hjob module hmodule⟩⟩
  · cases hs

theorem kept_run (h : s.Kept) (hsteady : s.Steady (.run k module)) (hs : s.next (.run k module) = some s') : s'.Kept := by
  obtain ⟨job, hjob, hs⟩ := Option.bind_eq_some_iff.mp hs
  have hmem := List.mem_of_getElem? hjob
  split at hs
  · next read level enabled unstarted hpc =>
    split at hs
    · next hunstarted =>
      obtain ⟨codes, hcodes, rfl⟩ := Option.map_eq_some_iff.mp hs
      have hgoes : (s.goes k job (.running read level enabled (unstarted.filter (· ≠ module)))).Kept := by
        refine h.goes hjob fun start hstart hkept _ => ?_
        unfold Start.JobKept at hkept
        rw [hpc] at hkept
        exact ⟨fun module' hmodule' => hkept.1 module' (List.mem_of_mem_filter hmodule'), hkept.2⟩
      refine ⟨fun hnone => ?_, hgoes.requested, hgoes.jobs, fun start hstart run hrun => ?_⟩
      · rw [(h.jobs_of_start hnone).1] at hmem
        cases hmem
      · rcases List.mem_append.mp hrun with hrun | hrun
        · exact h.held start hstart run hrun
        · obtain rfl := List.mem_singleton.mp hrun
          have hkept := h.jobs start hstart job hmem
          unfold Start.JobKept at hkept
          rw [hpc] at hkept
          have hmodule := hkept.1 module hunstarted
          exact matches_invoked (h.requested start hstart job hmem module hmodule) (hkept.2 module hmodule).1 (hkept.2 module hmodule).2
            (hsteady start hstart job hjob codes hcodes read level enabled unstarted hpc)
    · cases hs
  · cases hs

theorem kept_step (h : s.Kept) (hsteady : s.Steady a) (hs : s.next a = some s') : s'.Kept := by
  cases a with
  | change change =>
    cases hs
    exact ⟨h.jobs_of_start, h.requested, h.jobs, h.held⟩
  | createScan context =>
    unfold next at hs
    dsimp only at hs
    split at hs
    · cases hs
    · next hnone =>
      cases hs
      obtain ⟨hjobs, hruns⟩ := h.jobs_of_start (Option.not_isSome_iff_eq_none.mp hnone)
      refine ⟨nofun, fun _ _ job hjob => ?_, fun _ _ job hjob => ?_, fun _ _ run hrun => ?_⟩
      · exact absurd (hjobs ▸ hjob) List.not_mem_nil
      · exact absurd (hjobs ▸ hjob) List.not_mem_nil
      · exact absurd (hruns ▸ hrun) List.not_mem_nil
  | deliver process modules =>
    obtain ⟨start, hstart, hs⟩ := Option.bind_eq_some_iff.mp hs
    split at hs
    · next hall =>
      cases hs
      refine ⟨fun hnone => absurd (hstart.symm.trans hnone) nofun, fun start' hstart' job hjob => ?_, fun start' hstart' job hjob => ?_, h.held⟩
      · rcases List.mem_append.mp hjob with hjob | hjob
        · exact h.requested start' hstart' job hjob
        · obtain rfl := List.mem_singleton.mp hjob
          obtain rfl : start = start' := Option.some.inj (hstart.symm.trans hstart')
          exact fun module hmodule => List.contains_iff_mem.mp (List.all_eq_true.mp hall module hmodule)
      · rcases List.mem_append.mp hjob with hjob | hjob
        · exact h.jobs start' hstart' job hjob
        · obtain rfl := List.mem_singleton.mp hjob
          exact fun module hmodule hunread => absurd hmodule hunread
    · cases hs
  | load process module =>
    cases hs
    exact ⟨h.jobs_of_start, h.requested, h.jobs, h.held⟩
  | readLevels k module => exact kept_readLevels h hsteady hs
  | reconfirm k reconfirmed => exact kept_reconfirm h hs
  | readEnabled k => exact kept_readEnabled h hsteady hs
  | run k module => exact kept_run h hsteady hs

/-- **The scan keeps its capabilities** in every run none of whose reads finds anything changed since the scan's start. -/
theorem held_of_steady {table : CapabilityTable} {disk : Disk} {processes : ℕ → Process} {s : Scene}
    (h : Reaches (Guarded Step fun s a _ => s.Steady a) (initial table disk processes) s) : s.Held :=
  (h.inv (kept_initial table disk processes) fun _ _ _ hu hs => kept_step hu hs.2 hs.1).held

/-! ### A scan that keeps them, and one that does not -/

def siteContext : SnapshotContext := ⟨ascii "free", .NONE, false, false, [.SECURITY]⟩

/-- One vendored capability, which requires nothing, and a worker that has loaded nothing. -/
def deepScene : Scene := initial (deepWorld (deepRow true .NONE [])).table (deepWorld (deepRow true .NONE [])).disk fun _ => ⟨none, fun _ => none⟩

/-- A phase's job, from its delivery to the calls. -/
def phaseActions : List Action := [.deliver 0 [.SECURITY], .load 0 .SECURITY, .readLevels 0 .SECURITY, .reconfirm 0 none, .readEnabled 0, .run 0 .SECURITY]

/-- The row is there as it was, and what is run has been loaded. -/
def quiet (s : Scene) (a : Action) : Bool :=
  s.table.rows = [deepRow true .NONE []] &&
    s.start.all (fun start => start.table.rows = [deepRow true .NONE []] ∧ start.disk = deepScene.disk ∧ start.context = siteContext) &&
    match a with
    | .run k module => s.jobs[k]?.all fun job => (s.processes job.process).loaded module = some [deepCode]
    | _ => true

theorem steady_of_quiet (h : quiet s a = true) : s.Steady a := by
  unfold quiet at h
  simp only [Bool.and_eq_true, decide_eq_true_eq, Option.all_eq_true] at h
  obtain ⟨⟨hrows, hstart⟩, hrun⟩ := h
  have hsame (start : Start) (h : start ∈ s.start) : s.table.rows = start.table.rows := hrows.trans (hstart start h).1.symm
  cases a with
  | readLevels k module =>
    intro start h row hhas
    rw [hsame start h]
    exact hhas.2.1 ▸ start.table.lookup_required hhas.1
  | readEnabled k =>
    intro start h job _ module _ id
    rw [hsame start h]
  | run k module =>
    intro start h job hjob codes hcodes read level enabled unstarted _ row hhas
    obtain ⟨hstartRows, hdisk, hcontext⟩ := hstart start h
    have hrow := hhas.1
    rw [hstartRows] at hrow
    obtain rfl := List.mem_singleton.mp hrow
    have hloaded : some codes = some [deepCode] := hcodes.symm.trans (of_decide_eq_true ((Option.all_eq_true ..).mp hrun job hjob))
    obtain rfl := Option.some.inj hloaded
    refine iff_of_true ⟨⟨deepCode, List.mem_singleton_self _, rfl⟩, Nat.zero_le _⟩ ?_
    unfold Start.Admits
    rw [hdisk, hcontext]
    exact ⟨by decide, rfl, nofun, nofun, Nat.zero_le _⟩
  | _ => trivial

theorem held_of_quiet : ∃ s, Reaches (Guarded Step fun s a _ => s.Steady a) deepScene s ∧
    s.runs = [⟨.SECURITY, [(ascii "deep", .NONE)]⟩] ∧ s.Held := by
  obtain ⟨s, hs, hruns⟩ := Reaches.exists_of_play next quiet deepScene (.createScan siteContext :: phaseActions)
    (fun s => s.runs = [⟨.SECURITY, [(ascii "deep", .NONE)]⟩]) (by decide)
  have hsteady : Reaches (Guarded Step fun s a _ => s.Steady a) deepScene s := hs.mono fun _ _ _ h => ⟨h.1, steady_of_quiet h.2⟩
  exact ⟨s, hsteady, hruns, held_of_steady hsteady⟩

/-- The capability is disabled after the scan has started, and its phase runs nothing. -/
theorem drifts : ∃ s, Reaches Step deepScene s ∧ ¬ s.Held := by
  obtain ⟨s, hs, hruns⟩ := Reaches.exists_of_play next (fun _ _ => true) deepScene
    (.createScan siteContext :: .change (.setCapabilityEnabled (ascii "deep") false) :: phaseActions)
    (fun s => s.runs = [⟨.SECURITY, []⟩] ∧
      s.start.any (fun start => (eligibleEntries start.snapshot .SECURITY).map (·.capabilityId) = [ascii "deep"]) = true) (by decide)
  obtain ⟨start, hstart, hsnapshot⟩ := Option.any_eq_true _ _ |>.mp hruns.2
  refine ⟨s, hs.of_guarded, fun hheld => ?_⟩
  have hmatches := hheld start hstart ⟨.SECURITY, []⟩ (hruns.1 ▸ List.mem_singleton_self _)
  have hdeep : ascii "deep" ∈ (eligibleEntries start.snapshot .SECURITY).map (·.capabilityId) := by
    rw [of_decide_eq_true hsnapshot]
    exact List.mem_singleton_self _
  exact absurd ((hmatches.ids _).mpr hdeep) List.not_mem_nil

end Scene

end WebAudit.Registry
