import Mathlib.Data.List.Sort
import Mathlib.Data.Int.ConditionallyCompleteOrder
import Mathlib.Data.Int.SuccPred
import Mathlib.Tactic.IntervalCases
import WebAudit.Lib.Calls
import WebAudit.Lib.Runs

/-!
# Telemetry archiving

`services/storage/telemetry-archive.ts`. Two tables are partitioned by the month of `createdAt`. `runTelemetryArchive`
reads a partition that is old enough, puts its rows into one object named after it, detaches it and drops it, each in a
statement of its own; `ensureFuturePartitions` creates the partitions of the months to come.

Any number of runs of both are under way, each statement may fail on either side, and rows are inserted all the while.
A month is counted from January of the year 0. A column without a time zone takes an instant as the reading of a clock
in UTC, and a process computes the first of a month in its own zone, so that the bounds of what it creates depend on it.
No row is lost (`rows_archived`) in the runs in which nothing is inserted into a partition between its export and its
end, none is created again under a name that has been exported, and the months begin when they do in UTC.
-/

namespace WebAudit.Storage.Telemetry

open WebAudit.Lib

/-! ### Months -/

/-- How the dates of a process read. -/
structure Zone where
  /-- `new Date(year, month, 1)`. -/
  firstOf : ℤ → ℤ
  firstOf_strictMono : StrictMono firstOf
  /-- `getFullYear()` and `getMonth()`. -/
  monthOf : ℤ → ℤ
  /-- The instant that a date without a zone stands for. -/
  parse : ℤ → ℤ

/-- The days of a year's February over 28. -/
def leapDay (year : ℤ) : ℤ := if year % 4 = 0 ∧ (year % 100 ≠ 0 ∨ year % 400 = 0) then 1 else 0

/-- The days before a year, from the year 0. -/
def yearDays (year : ℤ) : ℤ := 365 * year + (year + 3) / 4 - (year + 99) / 100 + (year + 399) / 400

/-- The days of a year before its `k`-th month, counted from 0. -/
def monthDays (leap : ℤ) : ℕ → ℤ
  | 0 => 0
  | 1 => 31
  | 2 => 59 + leap
  | 3 => 90 + leap
  | 4 => 120 + leap
  | 5 => 151 + leap
  | 6 => 181 + leap
  | 7 => 212 + leap
  | 8 => 243 + leap
  | 9 => 273 + leap
  | 10 => 304 + leap
  | _ => 334 + leap

/-- The first of a month in UTC, in milliseconds from 1970. -/
def utcFirstOf (month : ℤ) : ℤ :=
  (yearDays (month / 12) + monthDays (leapDay (month / 12)) (month % 12).toNat - 719528) * 86400000

theorem leapDay_eq (year : ℤ) : leapDay year = 0 ∨ leapDay year = 1 := by
  unfold leapDay
  split
  · exact .inr rfl
  · exact .inl rfl

theorem yearDays_succ (year : ℤ) : yearDays (year + 1) = yearDays year + 365 + leapDay year := by
  unfold yearDays leapDay
  split <;> omega

theorem monthDays_lt_succ {leap : ℤ} (h : leap = 0 ∨ leap = 1) {k : ℕ} (hk : k < 11) : monthDays leap k < monthDays leap (k + 1) := by
  interval_cases k <;> simp only [monthDays] <;> omega

theorem utcFirstOf_lt_succ (month : ℤ) : utcFirstOf month < utcFirstOf (month + 1) := by
  have hleap := leapDay_eq (month / 12)
  have hdays : yearDays (month / 12) + monthDays (leapDay (month / 12)) (month % 12).toNat <
      yearDays ((month + 1) / 12) + monthDays (leapDay ((month + 1) / 12)) ((month + 1) % 12).toNat := by
    by_cases hk : month % 12 = 11
    · have hyear : (month + 1) / 12 = month / 12 + 1 := by omega
      have hmonth : ((month + 1) % 12).toNat = 0 := by omega
      rw [hyear, hmonth, hk, yearDays_succ]
      change _ + (334 + _) < _ + (0 : ℤ)
      omega
    · have hyear : (month + 1) / 12 = month / 12 := by omega
      have hmonth : ((month + 1) % 12).toNat = (month % 12).toNat + 1 := by omega
      rw [hyear, hmonth]
      have hlt := monthDays_lt_succ hleap (k := (month % 12).toNat) (by omega)
      omega
  unfold utcFirstOf
  omega

theorem utcFirstOf_strictMono : StrictMono utcFirstOf := strictMono_int_of_lt_succ utcFirstOf_lt_succ

/-! ### Partitions and runs -/

inductive ArchivableTable where
  | AiInvocation
  | CapabilityExecution
  deriving DecidableEq

def ARCHIVABLE_TABLES : List ArchivableTable := [.AiInvocation, .CapabilityExecution]

/-- `<table>_<YYYY>_<MM>`: a partition, and in `archive/<table>/` the object of its rows. -/
structure PartitionName where
  table : ArchivableTable
  month : ℤ
  deriving DecidableEq

structure Row where
  id : ℕ
  createdAt : ℤ
  deriving DecidableEq

/-- A partition as it has been created. -/
structure Created where
  name : PartitionName
  lower : ℤ
  upper : ℤ
  deriving DecidableEq

/-- A table that is, or was, a partition. -/
structure Partition where
  lower : ℤ
  upper : ℤ
  attached : Bool
  rows : List Row
  deriving DecidableEq

structure ArchiveOptions where
  retentionMonths : ℤ
  dryRun : Bool
  now : ℤ
  zone : Zone

/-- Where a run of `runTelemetryArchive` is, after the listing with the first of its candidates. -/
inductive ArchivePc where
  | listing
  | counting
  | selecting
  | putting (rows : List Row)
  | detaching
  | dropping
  | ended
  deriving DecidableEq

/-- From its export on, until it is through with the partition. -/
def ArchivePc.holds : ArchivePc → Bool
  | .putting _ | .detaching | .dropping => true
  | _ => false

structure ArchiveRun where
  options : ArchiveOptions
  /-- Those not listed yet. -/
  tables : List ArchivableTable
  candidates : List PartitionName
  pc : ArchivePc

/-- Where a run of `ensureFuturePartitions` is. -/
inductive EnsurePc where
  | checking
  | creating
  deriving DecidableEq

structure EnsureRun where
  zone : Zone
  /-- The first is the one at hand. -/
  names : List PartitionName
  pc : EnsurePc

inductive Change where
  | none
  | insert (name : PartitionName) (row : Row)
  | put (name : PartitionName) (rows : List Row)
  | detach (name : PartitionName)
  | drop (name : PartitionName)
  | create (partition : Created)
  deriving DecidableEq

structure State where
  partitions : PartitionName → Option Partition
  /-- All that have been created, the last one first. -/
  created : List Created
  /-- All that has been put, the last one first. -/
  uploads : List (PartitionName × List Row)
  /-- Every row that has been committed to a table. -/
  committed : List (ArchivableTable × Row)
  archives : List ArchiveRun
  ensures : List EnsureRun

inductive Action where
  /-- Through the table, into the partition that takes it. -/
  | insert (name : PartitionName) (row : Row)
  | runTelemetryArchive (options : ArchiveOptions)
  | archive (i : ℕ) (reply : Reply)
  | ensureFuturePartitions (monthsAhead : ℕ) (now : ℤ) (zone : Zone)
  | ensure (i : ℕ) (reply : Reply)

namespace State

variable (s : State)

/-- What the migration leaves: both tables with the partitions of these months. -/
def start (months : List ℤ) : State where
  partitions name := if name.month ∈ months then some ⟨utcFirstOf name.month, utcFirstOf (name.month + 1), true, []⟩ else none
  created := (ARCHIVABLE_TABLES.map fun table => months.map fun month =>
    (⟨⟨table, month⟩, utcFirstOf month, utcFirstOf (month + 1)⟩ : Created)).flatten
  uploads := []
  committed := []
  archives := []
  ensures := []

/-- The attached partitions of a table that end by the cutoff, by their names. -/
def candidatesOf (options : ArchiveOptions) (table : ArchivableTable) : List PartitionName :=
  let cutoff := options.zone.firstOf (options.zone.monthOf options.now - options.retentionMonths)
  let old := s.created.filter fun p => p.name.table = table && (s.partitions p.name).any fun q =>
    q.attached && options.zone.parse q.upper ≤ cutoff
  ((old.map Created.name).dedup).insertionSort fun a b => a.month ≤ b.month

/-- The rows of the object of a partition. -/
def objectOf (name : PartitionName) : Option (List Row) := (s.uploads.find? fun u => u.1 = name).map Prod.snd

/-- An attached partition of the table has values in common with it. -/
def overlaps (p : Created) : Bool :=
  s.created.any fun q => q.name.table = p.name.table && (s.partitions q.name).any fun t => t.attached && p.lower < t.upper && t.lower < p.upper

def change : Change → State
  | .none => s
  | .insert name row =>
    { s with
      partitions := fun n => if n = name then (s.partitions name).map fun p => { p with rows := p.rows ++ [row] } else s.partitions n
      committed := s.committed ++ [(name.table, row)] }
  | .put name rows => { s with uploads := (name, rows) :: s.uploads }
  | .detach name =>
    { s with partitions := fun n => if n = name then (s.partitions name).map fun p => { p with attached := false } else s.partitions n }
  | .drop name => { s with partitions := Function.update s.partitions name none }
  | .create p =>
    { s with
      partitions := Function.update s.partitions p.name (some ⟨p.lower, p.upper, true, []⟩)
      created := p :: s.created }

end State

namespace ArchiveRun

variable (r : ArchiveRun)

/-- With the partition at hand, from its export on. -/
def holds (name : PartitionName) : Bool := r.pc.holds && r.candidates.head? == some name

/-- On to the next candidate, the next table, or the end. -/
def advance (tables : List ArchivableTable) (candidates : List PartitionName) : ArchiveRun :=
  match candidates, tables with
  | [], [] => { r with tables, candidates, pc := .ended }
  | [], _ :: _ => { r with tables, candidates, pc := .listing }
  | _ :: _, _ => { r with tables, candidates, pc := .counting }

def stop : ArchiveRun := { r with pc := .ended }

end ArchiveRun

/-! ### Their statements -/

/-- The next statement of a run of `runTelemetryArchive`. -/
def archiveTurn (s : State) (r : ArchiveRun) (reply : Reply) : Option (ArchiveRun × Change) :=
  match r.pc, r.candidates, r.tables with
  | .listing, _, table :: tables => some (reply.outcome r.stop (r.advance tables (s.candidatesOf r.options table)) .none .none)
  | .counting, name :: candidates, tables =>
    if (s.partitions name).isNone then some (r.stop, .none)
    else some (reply.outcome r.stop (if r.options.dryRun then r.advance tables candidates else { r with pc := .selecting }) .none .none)
  | .selecting, name :: _, _ =>
    match s.partitions name with
    | none => some (r.stop, .none)
    | some p => some (reply.outcome r.stop { r with pc := .putting p.rows } .none .none)
  | .putting rows, name :: _, _ => some (reply.outcome r.stop { r with pc := .detaching } .none (.put name rows))
  | .detaching, name :: _, _ =>
    if (s.partitions name).any Partition.attached then some (reply.outcome r.stop { r with pc := .dropping } .none (.detach name))
    else some (r.stop, .none)
  | .dropping, name :: candidates, tables =>
    if (s.partitions name).isNone then some (r.stop, .none)
    else some (reply.outcome r.stop (r.advance tables candidates) .none (.drop name))
  | _, _, _ => none

/-- The next statement of a run of `ensureFuturePartitions`. The name of a detached partition is taken too. -/
def ensureTurn (s : State) (r : EnsureRun) (reply : Reply) : Option (EnsureRun × Change) :=
  match r.pc, r.names with
  | .checking, name :: names =>
    some (reply.outcome { r with names := [] } (if (s.partitions name).isSome then { r with names } else { r with pc := .creating }) .none .none)
  | .creating, name :: names =>
    let p : Created := ⟨name, r.zone.firstOf name.month, r.zone.firstOf (name.month + 1)⟩
    if (s.partitions name).isSome || s.overlaps p then some ({ r with names := [] }, .none)
    else some (reply.outcome { r with names := [] } { r with names, pc := .checking } .none (.create p))
  | _, [] => none

/-- The partitions that a run of `ensureFuturePartitions` goes through. -/
def futureNames (monthsAhead : ℕ) (now : ℤ) (zone : Zone) : List PartitionName :=
  ((List.range (monthsAhead + 1)).map fun offset =>
    ARCHIVABLE_TABLES.map fun table => (⟨table, zone.monthOf now + offset⟩ : PartitionName)).flatten

def next (s : State) : Action → Option State
  | .insert name row =>
    if (s.partitions name).any fun p => p.attached && p.lower ≤ row.createdAt && row.createdAt < p.upper && row ∉ p.rows then
      some (s.change (.insert name row))
    else none
  | .runTelemetryArchive options =>
    some { s with archives := s.archives ++ [⟨options, ARCHIVABLE_TABLES, [], .listing⟩] }
  | .archive i reply => do
    let r ← s.archives[i]?
    let (r, change) ← archiveTurn s r reply
    return { s.change change with archives := s.archives.set i r }
  | .ensureFuturePartitions monthsAhead now zone =>
    some { s with ensures := s.ensures ++ [⟨zone, futureNames monthsAhead now zone, .checking⟩] }
  | .ensure i reply => do
    let r ← s.ensures[i]?
    let (r, change) ← ensureTurn s r reply
    return { s.change change with ensures := s.ensures.set i r }

def step (s : State) (a : Action) (s' : State) : Prop := next s a = some s'

/-! ### What holds of the rows -/

/-- Every row is in its table or in an object, no object has lost a row, and the partitions of successive months meet. -/
structure Archived (s : State) : Prop where
  kept : ∀ table row, (table, row) ∈ s.committed → ∃ name : PartitionName, name.table = table ∧
    ((∃ p, s.partitions name = some p ∧ p.attached = true ∧ row ∈ p.rows) ∨ ∃ rows, s.objectOf name = some rows ∧ row ∈ rows)
  grown : s.uploads.Pairwise fun new old => new.1 = old.1 → old.2 ⊆ new.2
  contiguous : ∀ p ∈ s.created, ∀ q ∈ s.created, p.name.table = q.name.table → p.name.month + 1 = q.name.month → p.upper = q.lower
  disjoint : ∀ p ∈ s.created, ∀ q ∈ s.created, p.name.table = q.name.table → p.name.month < q.name.month → p.upper ≤ q.lower

/-- What a step does to the rows, the partitions and the objects. -/
def changeOf (s : State) : Action → Change
  | .insert name row => .insert name row
  | .archive i reply => ((s.archives[i]?.bind fun r => archiveTurn s r reply).map Prod.snd).getD .none
  | .ensure i reply => ((s.ensures[i]?.bind fun r => ensureTurn s r reply).map Prod.snd).getD .none
  | _ => .none

/-- Nothing is inserted into a partition that a run has exported and not done with, no partition is created whose
name has been exported, and what is created begins and ends with its month in UTC. -/
def orderly (s : State) (a : Action) : Bool :=
  match changeOf s a with
  | .insert name _ => s.archives.all fun r => !r.holds name
  | .create p => s.uploads.all (fun u => u.1 ≠ p.name) && p.lower == utcFirstOf p.name.month && p.upper == utcFirstOf (p.name.month + 1)
  | _ => true

/-! ### Invariants -/

section Invariants

variable {s s' : State} {a : Action} {r r' : ArchiveRun} {runs : List ArchiveRun} {name : PartitionName} {rows : List Row} {row : Row}
  {i : ℕ} {p : Partition} {change : Change}

/-- What a run that holds a partition knows. -/
structure Sound (s : State) (r : ArchiveRun) : Prop where
  /-- The rows it is about to put are those of the partition, and all that have been put. -/
  putting : ∀ name rows, r.candidates.head? = some name → r.pc = .putting rows →
    (∀ u ∈ s.uploads, u.1 = name → u.2 ⊆ rows) ∧ ∀ p, s.partitions name = some p → p.rows = rows
  exported : ∀ name, r.candidates.head? = some name → r.pc = .detaching ∨ r.pc = .dropping →
    ∃ rows, s.objectOf name = some rows ∧ ∀ p, s.partitions name = some p → p.rows ⊆ rows
  gone : ∀ name, r.holds name = true → s.partitions name = none → (s.objectOf name).isSome

structure Kept (s : State) (runs : List ArchiveRun) : Prop where
  kept : ∀ table row, (table, row) ∈ s.committed → ∃ name : PartitionName, name.table = table ∧
    ((∃ p, s.partitions name = some p ∧ p.attached = true ∧ row ∈ p.rows) ∨ ∃ rows, s.objectOf name = some rows ∧ row ∈ rows)
  grown : s.uploads.Pairwise fun new old => new.1 = old.1 → old.2 ⊆ new.2
  months : ∀ p ∈ s.created, p.lower = utcFirstOf p.name.month ∧ p.upper = utcFirstOf (p.name.month + 1)
  /-- What has been put of a partition that is there is in it. -/
  growing : ∀ name p, s.partitions name = some p → ∀ u ∈ s.uploads, u.1 = name → u.2 ⊆ p.rows
  detached : ∀ name p, s.partitions name = some p → p.attached = false → ∃ rows, s.objectOf name = some rows ∧ p.rows ⊆ rows
  sound : ∀ r ∈ runs, Sound s r
  /-- Two runs about to put the rows of one partition have read the same. -/
  same : ∀ r ∈ runs, ∀ r' ∈ runs, ∀ name rows rows', r.candidates.head? = some name → r'.candidates.head? = some name →
    r.pc = .putting rows → r'.pc = .putting rows' → rows = rows'

theorem objectOf_mem (h : s.objectOf name = some rows) : (name, rows) ∈ s.uploads := by
  obtain ⟨u, hu, rfl⟩ := Option.map_eq_some_iff.mp h
  have hname : u.1 = name := by simpa using List.find?_some hu
  subst hname
  exact List.mem_of_find?_eq_some hu

theorem objectOf_put_self : (s.change (.put name rows)).objectOf name = some rows := by
  simp [State.objectOf, State.change]

theorem objectOf_put_ne {name' : PartitionName} (h : name ≠ name') : (s.change (.put name rows)).objectOf name' = s.objectOf name' := by
  simp [State.objectOf, State.change, h]

theorem ArchiveRun.holds_iff : r.holds name = true ↔ r.pc.holds = true ∧ r.candidates.head? = some name := by
  simp [ArchiveRun.holds]

theorem holds_of_putting (hname : r.candidates.head? = some name) (hpc : r.pc = .putting rows) : r.holds name = true :=
  ArchiveRun.holds_iff.mpr ⟨by rw [hpc]; rfl, hname⟩

theorem holds_of_exported (hname : r.candidates.head? = some name) (hpc : r.pc = .detaching ∨ r.pc = .dropping) : r.holds name = true := by
  refine ArchiveRun.holds_iff.mpr ⟨?_, hname⟩
  rcases hpc with hpc | hpc <;> rw [hpc] <;> rfl

/-! ### One run moves -/

theorem Sound.idle (h : r.pc.holds = false) : Sound s r where
  putting name rows _ hpc := by
    rw [hpc] at h
    cases h
  exported name _ hpc := by
    rcases hpc with hpc | hpc
    · rw [hpc] at h
      cases h
    · rw [hpc] at h
      cases h
  gone name hholds _ := by cases h.symm.trans (ArchiveRun.holds_iff.mp hholds).1

/-- A run that is about to put what it has read reads the partition as it is. -/
theorem Kept.move (h : Kept s runs) (hsound : Sound s r')
    (hread : ∀ name rows, r'.candidates.head? = some name → r'.pc = .putting rows → ∃ p, s.partitions name = some p) :
    Kept s (runs.set i r') where
  kept := h.kept
  grown := h.grown
  months := h.months
  growing := h.growing
  detached := h.detached
  sound r hr := by
    rcases List.mem_or_eq_of_mem_set hr with hr | rfl
    · exact h.sound r hr
    · exact hsound
  same r hr v hv name rows rows' hname hname' hpc hpc' := by
    rcases List.mem_or_eq_of_mem_set hr with hrold | rfl
    · rcases List.mem_or_eq_of_mem_set hv with hvold | rfl
      · exact h.same r hrold v hvold name rows rows' hname hname' hpc hpc'
      · obtain ⟨p, hp⟩ := hread name rows' hname' hpc'
        have hrows := ((h.sound r hrold).putting name rows hname hpc).2 p hp
        exact hrows.symm.trans ((hsound.putting name rows' hname' hpc').2 p hp)
    · rcases List.mem_or_eq_of_mem_set hv with hvold | rfl
      · obtain ⟨p, hp⟩ := hread name rows hname hpc
        have hrows := (hsound.putting name rows hname hpc).2 p hp
        exact hrows.symm.trans (((h.sound v hvold).putting name rows' hname' hpc').2 p hp)
      · exact ArchivePc.putting.inj (hpc.symm.trans hpc')

theorem Kept.idle (h : Kept s runs) (hidle : r'.pc.holds = false) : Kept s (runs.set i r') :=
  h.move (Sound.idle hidle) fun name rows _ hpc => by
    rw [hpc] at hidle
    cases hidle

/-- After the SELECT. -/
theorem Kept.select (h : Kept s runs) (hp : s.partitions name = some p) (hname : r'.candidates.head? = some name)
    (hpc : r'.pc = .putting p.rows) : Kept s (runs.set i r') := by
  refine h.move ⟨fun name' rows hname' hpc' => ?_, fun name' _ hpc' => ?_, fun name' hholds hnone => ?_⟩ fun name' rows hname' _ => ?_
  · obtain rfl : name = name' := Option.some.inj (hname.symm.trans hname')
    obtain rfl : p.rows = rows := ArchivePc.putting.inj (hpc.symm.trans hpc')
    exact ⟨h.growing name p hp, fun q hq => congrArg Partition.rows (Option.some.inj (hq.symm.trans hp))⟩
  · rcases hpc' with hpc' | hpc' <;> cases hpc.symm.trans hpc'
  · obtain rfl : name = name' := Option.some.inj (hname.symm.trans (ArchiveRun.holds_iff.mp hholds).2)
    cases hnone.symm.trans hp
  · obtain rfl : name = name' := Option.some.inj (hname.symm.trans hname')
    exact ⟨p, hp⟩

/-- With the object in its place. -/
theorem Kept.goOn (h : Kept s runs) (hobject : s.objectOf name = some rows) (hrows : ∀ p, s.partitions name = some p → p.rows ⊆ rows)
    (hname : r'.candidates.head? = some name) (hpc : r'.pc = .detaching ∨ r'.pc = .dropping) : Kept s (runs.set i r') := by
  have hput (rows' : List Row) : r'.pc ≠ .putting rows' := fun hpc' => by rcases hpc with hpc | hpc <;> cases hpc.symm.trans hpc'
  refine h.move ⟨fun _ rows' _ hpc' => absurd hpc' (hput rows'), fun name' hname' _ => ?_, fun name' hholds _ => ?_⟩
    fun _ rows' _ hpc' => absurd hpc' (hput rows')
  · obtain rfl : name = name' := Option.some.inj (hname.symm.trans hname')
    exact ⟨rows, hobject, hrows⟩
  · obtain rfl : name = name' := Option.some.inj (hname.symm.trans (ArchiveRun.holds_iff.mp hholds).2)
    rw [hobject]
    rfl

/-! ### What is done to the partitions and the objects -/

theorem Kept.insert (h : Kept s runs) (hp : s.partitions name = some p) (hattached : p.attached = true)
    (hfree : ∀ r ∈ runs, r.holds name = false) : Kept (s.change (.insert name row)) runs := by
  have hself : (s.change (.insert name row)).partitions name = some { p with rows := p.rows ++ [row] } := by
    simp [State.change, hp]
  have hother {name' : PartitionName} (hne : name' ≠ name) : (s.change (.insert name row)).partitions name' = s.partitions name' := by
    simp [State.change, hne]
  have hcases {name' : PartitionName} {q : Partition} (hq : (s.change (.insert name row)).partitions name' = some q) :
      (name' = name ∧ q = { p with rows := p.rows ++ [row] }) ∨ (name' ≠ name ∧ s.partitions name' = some q) := by
    by_cases hname : name' = name
    · subst hname
      exact .inl ⟨rfl, Option.some.inj (hq.symm.trans hself)⟩
    · exact .inr ⟨hname, (hother hname).symm.trans hq⟩
  refine ⟨fun table row' hrow => ?_, h.grown, h.months, fun name' q hq u hu hname => ?_, fun name' q hq hdetached => ?_,
    fun r hr => ⟨fun name' rows hname hpc => ?_, fun name' hname hpc => ?_, fun name' hholds hnone => ?_⟩, h.same⟩
  · rcases List.mem_append.mp hrow with hrow | hrow
    · obtain ⟨name', rfl, ⟨q, hq, hin, hmem⟩ | hobject⟩ := h.kept table row' hrow
      · refine ⟨name', rfl, .inl ?_⟩
        by_cases hname : name' = name
        · subst hname
          obtain rfl : p = q := Option.some.inj (hp.symm.trans hq)
          exact ⟨_, hself, hin, List.mem_append_left _ hmem⟩
        · exact ⟨q, (hother hname).trans hq, hin, hmem⟩
      · exact ⟨name', rfl, .inr hobject⟩
    · obtain ⟨rfl, rfl⟩ : table = name.table ∧ row' = row := by simpa using hrow
      exact ⟨name, rfl, .inl ⟨_, hself, hattached, List.mem_append_right _ List.mem_cons_self⟩⟩
  · rcases hcases hq with ⟨rfl, rfl⟩ | ⟨-, hq⟩
    · exact List.subset_append_of_subset_left _ (h.growing _ p hp u hu hname)
    · exact h.growing name' q hq u hu hname
  · rcases hcases hq with ⟨-, rfl⟩ | ⟨-, hq⟩
    · cases hdetached.symm.trans hattached
    · exact h.detached name' q hq hdetached
  · refine ⟨((h.sound r hr).putting name' rows hname hpc).1, fun q hq => ?_⟩
    rcases hcases hq with ⟨rfl, -⟩ | ⟨-, hq⟩
    · cases (hfree r hr).symm.trans (holds_of_putting hname hpc)
    · exact ((h.sound r hr).putting name' rows hname hpc).2 q hq
  · obtain ⟨rows, hobject, hrows⟩ := (h.sound r hr).exported name' hname hpc
    refine ⟨rows, hobject, fun q hq => ?_⟩
    rcases hcases hq with ⟨rfl, -⟩ | ⟨-, hq⟩
    · cases (hfree r hr).symm.trans (holds_of_exported hname hpc)
    · exact hrows q hq
  · by_cases hname : name' = name
    · subst hname
      cases hnone.symm.trans hself
    · exact (h.sound r hr).gone name' hholds ((hother hname).symm.trans hnone)

theorem Kept.put (h : Kept s runs) (hr : r ∈ runs) (hname : r.candidates.head? = some name) (hpc : r.pc = .putting rows) :
    Kept (s.change (.put name rows)) runs := by
  obtain ⟨hall, hsame⟩ := (h.sound r hr).putting name rows hname hpc
  -- whatever an object had of its partition, it has
  have hmore {name' : PartitionName} {old : List Row} (hold : s.objectOf name' = some old) :
      ∃ new, (s.change (.put name rows)).objectOf name' = some new ∧ old ⊆ new := by
    by_cases heq : name = name'
    · subst heq
      exact ⟨rows, objectOf_put_self, hall _ (objectOf_mem hold) rfl⟩
    · exact ⟨old, (objectOf_put_ne heq).trans hold, fun _ hmem => hmem⟩
  refine ⟨fun table row hrow => ?_, List.pairwise_cons.mpr ⟨fun u hu heq => hall u hu heq.symm, h.grown⟩, h.months,
    fun name' q hq u hu hu' => ?_, fun name' q hq hdetached => ?_,
    fun v hv => ⟨fun name' rows' hname' hpc' => ⟨fun u hu hu' => ?_, fun q hq => ?_⟩, fun name' hname' hpc' => ?_, fun name' hholds hnone => ?_⟩, h.same⟩
  · obtain ⟨name', rfl, hin | ⟨old, hobject, hmem⟩⟩ := h.kept table row hrow
    · exact ⟨name', rfl, .inl hin⟩
    · obtain ⟨new, hnew, hsub⟩ := hmore hobject
      exact ⟨name', rfl, .inr ⟨new, hnew, hsub hmem⟩⟩
  · rcases List.mem_cons.mp hu with rfl | hu
    · obtain rfl : name = name' := hu'
      rw [hsame q hq]
      exact List.Subset.refl _
    · exact h.growing name' q hq u hu hu'
  · obtain ⟨old, hobject, hsub⟩ := h.detached name' q hq hdetached
    obtain ⟨new, hnew, hmore⟩ := hmore hobject
    exact ⟨new, hnew, List.Subset.trans hsub hmore⟩
  · rcases List.mem_cons.mp hu with rfl | hu
    · obtain rfl : name = name' := hu'
      rw [h.same r hr v hv name rows rows' hname hname' hpc hpc']
      exact List.Subset.refl _
    · exact ((h.sound v hv).putting name' rows' hname' hpc').1 u hu hu'
  · exact ((h.sound v hv).putting name' rows' hname' hpc').2 q hq
  · obtain ⟨old, hobject, hsub⟩ := (h.sound v hv).exported name' hname' hpc'
    obtain ⟨new, hnew, hmore⟩ := hmore hobject
    exact ⟨new, hnew, fun q hq => List.Subset.trans (hsub q hq) hmore⟩
  · obtain ⟨old, hold⟩ := Option.isSome_iff_exists.mp ((h.sound v hv).gone name' hholds hnone)
    obtain ⟨new, hnew, -⟩ := hmore hold
    rw [hnew]
    rfl

theorem Kept.detach (h : Kept s runs) (hr : r ∈ runs) (hname : r.candidates.head? = some name) (hpc : r.pc = .detaching) :
    Kept (s.change (.detach name)) runs := by
  obtain ⟨rows, hobject, hrows⟩ := (h.sound r hr).exported name hname (.inl hpc)
  have hcases {name' : PartitionName} {q : Partition} (hq : (s.change (.detach name)).partitions name' = some q) :
      ∃ q', s.partitions name' = some q' ∧ q.rows = q'.rows ∧ (name' ≠ name → q = q') := by
    by_cases heq : name' = name
    · subst heq
      have hq : (s.partitions name').map (fun p => { p with attached := false }) = some q := by simpa [State.change] using hq
      obtain ⟨q', hq', rfl⟩ := Option.map_eq_some_iff.mp hq
      exact ⟨q', hq', rfl, fun hne => absurd rfl hne⟩
    · exact ⟨q, by simpa [State.change, heq] using hq, rfl, fun _ => rfl⟩
  refine ⟨fun table row hrow => ?_, h.grown, h.months, fun name' q hq u hu hu' => ?_, fun name' q hq hdetached => ?_,
    fun v hv => ⟨fun name' rows' hname' hpc' => ⟨((h.sound v hv).putting name' rows' hname' hpc').1, fun q hq => ?_⟩,
      fun name' hname' hpc' => ?_, fun name' hholds hnone => ?_⟩, h.same⟩
  · obtain ⟨name', rfl, ⟨q, hq, hin, hmem⟩ | hin⟩ := h.kept table row hrow
    · by_cases heq : name' = name
      · subst heq
        exact ⟨name', rfl, .inr ⟨rows, hobject, hrows q hq hmem⟩⟩
      · exact ⟨name', rfl, .inl ⟨q, by simpa [State.change, heq] using hq, hin, hmem⟩⟩
    · exact ⟨name', rfl, .inr hin⟩
  · obtain ⟨q', hq', hsame, -⟩ := hcases hq
    rw [hsame]
    exact h.growing name' q' hq' u hu hu'
  · obtain ⟨q', hq', hsame, hother⟩ := hcases hq
    by_cases heq : name' = name
    · subst heq
      rw [hsame]
      exact ⟨rows, hobject, hrows q' hq'⟩
    · rw [hother heq] at hdetached ⊢
      exact h.detached name' q' hq' hdetached
  · obtain ⟨q', hq', hsame, -⟩ := hcases hq
    rw [hsame]
    exact ((h.sound v hv).putting name' rows' hname' hpc').2 q' hq'
  · obtain ⟨rows', hobject', hrows'⟩ := (h.sound v hv).exported name' hname' hpc'
    refine ⟨rows', hobject', fun q hq => ?_⟩
    obtain ⟨q', hq', hsame, -⟩ := hcases hq
    rw [hsame]
    exact hrows' q' hq'
  · refine (h.sound v hv).gone name' hholds ?_
    by_cases heq : name' = name
    · subst heq
      simpa [State.change] using hnone
    · simpa [State.change, heq] using hnone

theorem Kept.drop (h : Kept s runs) (hr : r ∈ runs) (hname : r.candidates.head? = some name) (hpc : r.pc = .dropping) :
    Kept (s.change (.drop name)) runs := by
  obtain ⟨rows, hobject, hrows⟩ := (h.sound r hr).exported name hname (.inr hpc)
  have hcases {name' : PartitionName} {q : Partition} (hq : (s.change (.drop name)).partitions name' = some q) :
      s.partitions name' = some q := by
    by_cases heq : name' = name
    · subst heq
      simp [State.change] at hq
    · simpa [State.change, Function.update_of_ne heq] using hq
  refine ⟨fun table row hrow => ?_, h.grown, h.months, fun name' q hq => h.growing name' q (hcases hq),
    fun name' q hq => h.detached name' q (hcases hq),
    fun v hv => ⟨fun name' rows' hname' hpc' => ⟨((h.sound v hv).putting name' rows' hname' hpc').1, fun q hq => ?_⟩,
      fun name' hname' hpc' => ?_, fun name' hholds hnone => ?_⟩, h.same⟩
  · obtain ⟨name', rfl, ⟨q, hq, hin, hmem⟩ | hin⟩ := h.kept table row hrow
    · by_cases heq : name' = name
      · subst heq
        exact ⟨name', rfl, .inr ⟨rows, hobject, hrows q hq hmem⟩⟩
      · exact ⟨name', rfl, .inl ⟨q, by simpa [State.change, Function.update_of_ne heq] using hq, hin, hmem⟩⟩
    · exact ⟨name', rfl, .inr hin⟩
  · exact ((h.sound v hv).putting name' rows' hname' hpc').2 q (hcases hq)
  · obtain ⟨rows', hobject', hrows'⟩ := (h.sound v hv).exported name' hname' hpc'
    exact ⟨rows', hobject', fun q hq => hrows' q (hcases hq)⟩
  · by_cases heq : name' = name
    · subst heq
      change (s.objectOf name').isSome
      rw [hobject]
      rfl
    · exact (h.sound v hv).gone name' hholds (by simpa [State.change, Function.update_of_ne heq] using hnone)

theorem Kept.create {p : Created} (h : Kept s runs) (hnone : s.partitions p.name = none) (hnew : ∀ u ∈ s.uploads, u.1 ≠ p.name)
    (hlower : p.lower = utcFirstOf p.name.month) (hupper : p.upper = utcFirstOf (p.name.month + 1)) :
    Kept (s.change (.create p)) runs := by
  have hself : (s.change (.create p)).partitions p.name = some ⟨p.lower, p.upper, true, []⟩ := by simp [State.change]
  have hother {name' : PartitionName} (hne : name' ≠ p.name) : (s.change (.create p)).partitions name' = s.partitions name' := by
    simp [State.change, Function.update_of_ne hne]
  have hunheld (v : ArchiveRun) (hv : v ∈ runs) : ¬ v.holds p.name = true := fun hholds => by
    obtain ⟨rows, hrows⟩ := Option.isSome_iff_exists.mp ((h.sound v hv).gone p.name hholds hnone)
    exact hnew _ (objectOf_mem hrows) rfl
  refine ⟨fun table row hrow => ?_, h.grown, fun q hq => ?_, fun name' q hq u hu hu' => ?_, fun name' q hq hdetached => ?_,
    fun v hv => ⟨fun name' rows' hname' hpc' => ⟨((h.sound v hv).putting name' rows' hname' hpc').1, fun q hq => ?_⟩,
      fun name' hname' hpc' => ?_, fun name' hholds hnone' => ?_⟩, h.same⟩
  · obtain ⟨name', rfl, ⟨q, hq, hin, hmem⟩ | hin⟩ := h.kept table row hrow
    · have hne : name' ≠ p.name := fun heq => by
        rw [heq] at hq
        cases hnone.symm.trans hq
      exact ⟨name', rfl, .inl ⟨q, (hother hne).trans hq, hin, hmem⟩⟩
    · exact ⟨name', rfl, .inr hin⟩
  · rcases List.mem_cons.mp hq with rfl | hq
    · exact ⟨hlower, hupper⟩
    · exact h.months q hq
  · by_cases heq : name' = p.name
    · exact absurd (hu'.trans heq) (hnew u hu)
    · exact h.growing name' q ((hother heq).symm.trans hq) u hu hu'
  · by_cases heq : name' = p.name
    · subst heq
      obtain rfl := Option.some.inj (hq.symm.trans hself)
      cases hdetached
    · exact h.detached name' q ((hother heq).symm.trans hq) hdetached
  · by_cases heq : name' = p.name
    · subst heq
      exact absurd (holds_of_putting hname' hpc') (hunheld v hv)
    · exact ((h.sound v hv).putting name' rows' hname' hpc').2 q ((hother heq).symm.trans hq)
  · obtain ⟨rows', hobject', hrows'⟩ := (h.sound v hv).exported name' hname' hpc'
    refine ⟨rows', hobject', fun q hq => ?_⟩
    by_cases heq : name' = p.name
    · subst heq
      exact absurd (holds_of_exported hname' hpc') (hunheld v hv)
    · exact hrows' q ((hother heq).symm.trans hq)
  · by_cases heq : name' = p.name
    · subst heq
      exact absurd hholds (hunheld v hv)
    · exact (h.sound v hv).gone name' hholds ((hother heq).symm.trans hnone')

/-! ### The steps -/

/-- What the next statement of a run does. -/
inductive ArchiveTurns (s : State) (r : ArchiveRun) : ArchiveRun → Change → Prop where
  | idle {r' : ArchiveRun} (hidle : r'.pc.holds = false) : ArchiveTurns s r r' .none
  | select {name : PartitionName} {p : Partition} (hname : r.candidates.head? = some name) (hp : s.partitions name = some p) :
      ArchiveTurns s r { r with pc := .putting p.rows } .none
  | put {name : PartitionName} {rows : List Row} {r' : ArchiveRun} (hname : r.candidates.head? = some name)
      (hpc : r.pc = .putting rows) (hgoes : r' = { r with pc := .detaching } ∨ r'.pc.holds = false) :
      ArchiveTurns s r r' (.put name rows)
  | detach {name : PartitionName} {r' : ArchiveRun} (hname : r.candidates.head? = some name) (hpc : r.pc = .detaching)
      (hgoes : r' = { r with pc := .dropping } ∨ r'.pc.holds = false) : ArchiveTurns s r r' (.detach name)
  | drop {name : PartitionName} {r' : ArchiveRun} (hname : r.candidates.head? = some name) (hpc : r.pc = .dropping)
      (hidle : r'.pc.holds = false) : ArchiveTurns s r r' (.drop name)

theorem advance_idle (r : ArchiveRun) (tables : List ArchivableTable) (candidates : List PartitionName) :
    (r.advance tables candidates).pc.holds = false := by
  unfold ArchiveRun.advance
  split <;> rfl

theorem archiveTurn_turns {reply : Reply} (h : archiveTurn s r reply = some (r', change)) : ArchiveTurns s r r' change := by
  unfold archiveTurn at h
  split at h
  · obtain ⟨rfl, rfl | rfl⟩ := Reply.outcome_idle (Option.some.inj h)
    · exact .idle (advance_idle _ _ _)
    · exact .idle rfl
  · split at h
    · cases h
      exact .idle rfl
    · obtain ⟨rfl, rfl | rfl⟩ := Reply.outcome_idle (Option.some.inj h)
      · split
        · exact .idle (advance_idle _ _ _)
        · exact .idle rfl
      · exact .idle rfl
  · rename_i hcandidates
    split at h
    · cases h
      exact .idle rfl
    · rename_i hp
      obtain ⟨rfl, rfl | rfl⟩ := Reply.outcome_idle (Option.some.inj h)
      · exact .select (by rw [hcandidates]; rfl) hp
      · exact .idle rfl
  · rename_i hpc hcandidates
    obtain ⟨rfl, hgoes⟩ | ⟨rfl, rfl⟩ := Reply.outcome_cases (Option.some.inj h)
    · refine .put (by rw [hcandidates]; rfl) hpc (hgoes.imp_right fun heq => ?_)
      rw [heq]
      rfl
    · exact .idle rfl
  · rename_i hpc hcandidates
    split at h
    · obtain ⟨rfl, hgoes⟩ | ⟨rfl, rfl⟩ := Reply.outcome_cases (Option.some.inj h)
      · refine .detach (by rw [hcandidates]; rfl) hpc (hgoes.imp_right fun heq => ?_)
        rw [heq]
        rfl
      · exact .idle rfl
    · cases h
      exact .idle rfl
  · rename_i hpc hcandidates
    split at h
    · cases h
      exact .idle rfl
    · obtain ⟨rfl, hgoes⟩ | ⟨rfl, rfl⟩ := Reply.outcome_cases (Option.some.inj h)
      · refine .drop (by rw [hcandidates]; rfl) hpc ?_
        rcases hgoes with rfl | rfl
        · exact advance_idle _ _ _
        · rfl
      · exact .idle rfl
  · cases h

/-- **The step of a run.** -/
theorem Kept.turn (h : Kept s runs) (hr : r ∈ runs) (hturn : ArchiveTurns s r r' change) : Kept (s.change change) (runs.set i r') := by
  cases hturn with
  | idle hidle => exact h.idle hidle
  | select hname hp => exact h.select hp hname rfl
  | @put name rows _ hname hpc hgoes =>
    have hput := h.put hr hname hpc
    rcases hgoes with rfl | hidle
    · refine hput.goOn objectOf_put_self (fun p hp => ?_) hname (.inl rfl)
      rw [((h.sound r hr).putting name rows hname hpc).2 p hp]
      exact List.Subset.refl _
    · exact hput.idle hidle
  | @detach name _ hname hpc hgoes =>
    have hdetach := h.detach hr hname hpc
    rcases hgoes with rfl | hidle
    · obtain ⟨rows, hobject, hrows⟩ := (hdetach.sound r hr).exported name hname (.inl hpc)
      exact hdetach.goOn hobject hrows hname (.inr rfl)
    · exact hdetach.idle hidle
  | drop hname hpc hidle => exact (h.drop hr hname hpc).idle hidle

theorem ensureTurn_turns {e e' : EnsureRun} {reply : Reply} (h : ensureTurn s e reply = some (e', change)) :
    change = .none ∨ ∃ p : Created, change = .create p ∧ s.partitions p.name = none := by
  unfold ensureTurn at h
  split at h
  · exact .inl (Reply.outcome_idle (Option.some.inj h)).1
  · dsimp only at h
    split at h
    · cases h
      exact .inl rfl
    · rename_i htaken
      obtain ⟨rfl, -⟩ | ⟨rfl, -⟩ := Reply.outcome_cases (Option.some.inj h)
      · refine .inr ⟨_, rfl, ?_⟩
        simp only [Bool.or_eq_true, not_or] at htaken
        simpa using htaken.1
      · exact .inl rfl
  · cases h

/-- Nothing of this depends on who is under way. -/
theorem Kept.congr (h : Kept s runs) (hpartitions : s'.partitions = s.partitions) (hcreated : s'.created = s.created)
    (huploads : s'.uploads = s.uploads) (hcommitted : s'.committed = s.committed) : Kept s' runs := by
  obtain ⟨partitions, created, uploads, committed, archives, ensures⟩ := s
  obtain ⟨partitions', created', uploads', committed', archives', ensures'⟩ := s'
  dsimp only at hpartitions hcreated huploads hcommitted
  subst hpartitions hcreated huploads hcommitted
  refine ⟨h.kept, h.grown, h.months, h.growing, h.detached, fun r hr => ?_, h.same⟩
  obtain ⟨hputting, hexported, hgone⟩ := h.sound r hr
  exact ⟨hputting, hexported, hgone⟩

theorem change_archives (s : State) (change : Change) : (s.change change).archives = s.archives := by cases change <;> rfl

theorem Kept.start (months : List ℤ) : Kept (.start months) [] where
  kept _ _ h := (List.not_mem_nil h).elim
  grown := List.Pairwise.nil
  months p hp := by
    obtain ⟨ps, hps, hp⟩ := List.mem_flatten.mp hp
    obtain ⟨table, -, rfl⟩ := List.mem_map.mp hps
    obtain ⟨month, -, rfl⟩ := List.mem_map.mp hp
    exact ⟨rfl, rfl⟩
  growing _ _ _ u hu := (List.not_mem_nil hu).elim
  detached name p hp hdetached := by
    unfold State.start at hp
    dsimp only at hp
    split at hp
    · cases hp
      cases hdetached
    · cases hp
  sound _ h := (List.not_mem_nil h).elim
  same _ h := (List.not_mem_nil h).elim

theorem kept_next (h : Kept s s.archives) (hnext : next s a = some s') (horderly : orderly s a = true) : Kept s' s'.archives := by
  cases a with
  | insert name row =>
    unfold next at hnext
    dsimp only at hnext
    split at hnext
    · rename_i htakes
      cases hnext
      obtain ⟨p, hp, htakes⟩ := Option.any_eq_true _ _ |>.mp htakes
      simp only [Bool.and_eq_true] at htakes
      refine h.insert hp htakes.1.1.1 fun r hr => ?_
      simpa using List.all_eq_true.mp horderly r hr
    · cases hnext
  | runTelemetryArchive options =>
    cases hnext
    have hnew (r : ArchiveRun) (hr : r ∈ s.archives ++ [⟨options, ARCHIVABLE_TABLES, [], .listing⟩]) : r ∈ s.archives ∨ r.pc = .listing := by
      rcases List.mem_append.mp hr with hr | hr
      · exact .inl hr
      · rw [List.mem_singleton.mp hr]
        exact .inr rfl
    refine Kept.congr (s := s) ⟨h.kept, h.grown, h.months, h.growing, h.detached, fun r hr => ?_,
      fun r hr v hv name rows rows' hname hname' hpc hpc' => ?_⟩ rfl rfl rfl rfl
    · rcases hnew r hr with hr | hlisting
      · exact h.sound r hr
      · exact Sound.idle (by rw [hlisting]; rfl)
    · rcases hnew r hr with hr | hlisting
      · rcases hnew v hv with hv | hlisting
        · exact h.same r hr v hv name rows rows' hname hname' hpc hpc'
        · cases hlisting.symm.trans hpc'
      · cases hlisting.symm.trans hpc
  | archive i reply =>
    obtain ⟨r, hi, hnext⟩ := Option.bind_eq_some_iff.mp hnext
    obtain ⟨⟨r', change⟩, hturn, hs⟩ := Option.bind_eq_some_iff.mp hnext
    cases hs
    exact (h.turn (i := i) (List.mem_of_getElem? hi) (archiveTurn_turns hturn)).congr rfl rfl rfl rfl
  | ensureFuturePartitions monthsAhead now zone =>
    cases hnext
    exact h.congr rfl rfl rfl rfl
  | ensure i reply =>
    obtain ⟨e, hi, hnext⟩ := Option.bind_eq_some_iff.mp hnext
    obtain ⟨⟨e', change⟩, hturn, hs⟩ := Option.bind_eq_some_iff.mp hnext
    cases hs
    have hchange : changeOf s (.ensure i reply) = change := by simp [changeOf, hi, hturn]
    have hafter : Kept (s.change change) s.archives := by
      rcases ensureTurn_turns hturn with rfl | ⟨p, rfl, hnone⟩
      · exact h
      · unfold orderly at horderly
        rw [hchange] at horderly
        simp only [Bool.and_eq_true, beq_iff_eq, List.all_eq_true] at horderly
        obtain ⟨⟨hnew, hlower⟩, hupper⟩ := horderly
        exact h.create hnone (fun u hu => by simpa using hnew u hu) hlower hupper
    rw [← change_archives s change] at hafter
    exact hafter.congr rfl rfl rfl rfl

/-- **The archive.** In an orderly run every row is in its table or in an object, no object has lost a row, and the
partitions of successive months meet. -/
theorem rows_archived (months : List ℤ) (h : Reaches (Guarded step fun s a _ => orderly s a = true) (.start months) s) : Archived s := by
  have hkept := h.inv (I := fun s => Kept s s.archives) (Kept.start months) fun _ _ _ hu hs => kept_next hu hs.1 hs.2
  refine ⟨hkept.kept, hkept.grown, fun p hp q hq _ hsucc => ?_, fun p hp q hq _ hlt => ?_⟩
  · rw [(hkept.months p hp).2, (hkept.months q hq).1, hsucc]
  · rw [(hkept.months p hp).2, (hkept.months q hq).1]
    exact utcFirstOf_strictMono.monotone (by omega)

/-- Every table that is there has been created. -/
def Known (s : State) : Prop := ∀ name, (s.partitions name).isSome → ∃ p ∈ s.created, p.name = name

theorem known_change (h : Known s) (change : Change) : Known (s.change change) := fun name hname => by
  cases change with
  | none => exact h name hname
  | put _ _ => exact h name hname
  | insert name' row =>
    by_cases heq : name = name'
    · subst heq
      exact h name (by simpa [State.change] using hname)
    · exact h name (by simpa [State.change, heq] using hname)
  | detach name' =>
    by_cases heq : name = name'
    · subst heq
      exact h name (by simpa [State.change] using hname)
    · exact h name (by simpa [State.change, heq] using hname)
  | drop name' =>
    by_cases heq : name = name'
    · subst heq
      simp [State.change] at hname
    · exact h name (by simpa [State.change, Function.update_of_ne heq] using hname)
  | create p =>
    by_cases heq : name = p.name
    · exact ⟨p, List.mem_cons_self, heq.symm⟩
    · obtain ⟨q, hq, hqname⟩ := h name (by simpa [State.change, Function.update_of_ne heq] using hname)
      exact ⟨q, List.mem_cons_of_mem _ hq, hqname⟩

theorem known_of_run {months : List ℤ} (h : Reaches step (.start months) s) : Known s := by
  refine h.inv (I := Known) (fun name hname => ?_) fun s a s' hknown hstep => ?_
  · have hmonth : name.month ∈ months := by
      by_contra hmonth
      simp [State.start, hmonth] at hname
    have hpart : (⟨name, utcFirstOf name.month, utcFirstOf (name.month + 1)⟩ : Created) ∈
        months.map fun month => ⟨⟨name.table, month⟩, utcFirstOf month, utcFirstOf (month + 1)⟩ := List.mem_map.mpr ⟨name.month, hmonth, rfl⟩
    have htable : name.table ∈ ARCHIVABLE_TABLES := by cases name.table <;> decide
    exact ⟨_, List.mem_flatten.mpr ⟨_, List.mem_map.mpr ⟨name.table, htable, rfl⟩, hpart⟩, rfl⟩
  · cases a with
    | insert name row =>
      unfold step next at hstep
      dsimp only at hstep
      split at hstep
      · cases hstep
        exact known_change hknown _
      · cases hstep
    | runTelemetryArchive options =>
      cases hstep
      exact hknown
    | archive i reply =>
      obtain ⟨r, -, hstep⟩ := Option.bind_eq_some_iff.mp hstep
      obtain ⟨⟨r', change⟩, -, hs⟩ := Option.bind_eq_some_iff.mp hstep
      cases hs
      exact known_change hknown change
    | ensureFuturePartitions monthsAhead now zone =>
      cases hstep
      exact hknown
    | ensure i reply =>
      obtain ⟨e, -, hstep⟩ := Option.bind_eq_some_iff.mp hstep
      obtain ⟨⟨e', change⟩, -, hs⟩ := Option.bind_eq_some_iff.mp hstep
      cases hs
      exact known_change hknown change

end Invariants

/-! ### A row between the export and the drop -/

def utc : Zone where
  firstOf := utcFirstOf
  firstOf_strictMono := utcFirstOf_strictMono
  monthOf ms :=
    -- the days from the 1st of March of the year 0, in cycles of 400 years
    let days := ms / 86400000 + 719468
    let day := days % 146097
    let year := (day - day / 1460 + day / 36524 - day / 146096) / 365
    let dayOfYear := day - (365 * year + year / 4 - year / 100)
    12 * (400 * (days / 146097) + year) + 2 + (5 * dayOfYear + 2) / 153
  parse ms := ms

/-- The 15th of June 2026. -/
def sampleNow : ℤ := utcFirstOf (12 * 2026 + 5) + 14 * 86400000

def sampleOptions : ArchiveOptions := ⟨3, false, sampleNow, utc⟩

/-- Of January 2026. -/
def sampleName : PartitionName := ⟨.AiInvocation, 12 * 2026⟩

def sampleRow (id : ℕ) : Row := ⟨id, utcFirstOf (12 * 2026) + id⟩

/-- June's partitions are created, and January's first one is archived. -/
theorem rows_archived_once : ∃ s : State, s.uploads = [(sampleName, [sampleRow 1])] ∧ Archived s := by
  obtain ⟨s, hs, huploads⟩ := Reaches.exists_of_play next orderly (.start [12 * 2026])
    (([.insert sampleName (sampleRow 1), .ensureFuturePartitions 0 sampleNow utc] : List Action) ++ List.replicate 4 (.ensure 0 .answered : Action) ++
      ([.runTelemetryArchive sampleOptions] : List Action) ++ List.replicate 6 (.archive 0 .answered : Action))
    (fun s => s.uploads = [(sampleName, [sampleRow 1])]) (by decide)
  exact ⟨s, huploads, rows_archived _ hs⟩

/-- A row is inserted after the partition has been exported and before it is detached. It is dropped with it. -/
theorem dropped_unexported : ∃ s : State, Reaches step (.start [12 * 2026]) s ∧ ¬ Archived s := by
  obtain ⟨s, hs, hrow, huploads, hgone⟩ := Reaches.exists_of_play next (fun _ _ => true) (.start [12 * 2026])
    (([.insert sampleName (sampleRow 1), .runTelemetryArchive sampleOptions] : List Action) ++ List.replicate 4 (.archive 0 .answered : Action) ++
      ([.insert sampleName (sampleRow 2)] : List Action) ++ List.replicate 2 (.archive 0 .answered : Action))
    (fun s => (.AiInvocation, sampleRow 2) ∈ s.committed ∧ (∀ u ∈ s.uploads, sampleRow 2 ∉ u.2) ∧
      ∀ p ∈ s.created, (s.partitions p.name).all fun q => sampleRow 2 ∉ q.rows) (by decide)
  refine ⟨s, hs.of_guarded, fun harchived => ?_⟩
  obtain ⟨name, -, ⟨q, hq, -, hmem⟩ | ⟨rows, hrows, hmem⟩⟩ := harchived.kept _ _ hrow
  · obtain ⟨p, hp, rfl⟩ := known_of_run hs.of_guarded name (by rw [hq]; rfl)
    have hnot := hgone p hp
    rw [hq] at hnot
    exact of_decide_eq_true hnot hmem
  · exact huploads _ (objectOf_mem hrows) hmem

end WebAudit.Storage.Telemetry
