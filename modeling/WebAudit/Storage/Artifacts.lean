import Mathlib.Algebra.Order.BigOperators.Group.List
import WebAudit.Lib.Rows
import WebAudit.Lib.Runs

/-!
# Artifacts and their objects

`services/evidence/artifacts.ts`. A call of `createArtifact` puts the object before it takes the scan's lock and inserts
the row; a refused call, `reclaimOrphanedArtifacts` and the retention sweep delete objects after look-ups of their own.
Objects are addressed by content, so that calls with one content share an object, and one row.

Any number of these run at once, each a statement at a time, and each may fail at any of them. The rows of a scan stay
within the budget and no two rows share a key in every run; every row has its object in the runs in which no object is
deleted that has a row, or a call on the way to one (`artifacts_intact`).
-/

namespace WebAudit.Storage.Artifacts

open WebAudit.Lib

abbrev Bytes := List UInt8

/-- `artifacts/<scanId>/<executionUnitId>/<leaf>`. -/
structure Key where
  scanId : ℕ
  executionUnitId : ℕ
  leaf : ℕ
  deriving DecidableEq

/-- A row of `Artifact`. -/
structure Artifact where
  scanId : ℕ
  userId : ℕ
  executionUnitId : ℕ
  storageKey : Key
  contentType : String
  sizeBytes : ℕ
  deriving DecidableEq

/-- An `ExecutionUnit`: whose it is, and the scan of its plan. -/
structure UnitRow where
  userId : ℕ
  scanId : ℕ
  deriving DecidableEq

/-- What the calls rely on. -/
structure Config where
  maxObjectBytes : ℕ
  maxScanBytes : ℕ
  orphanGraceMs : ℤ
  units : ℕ → Option UnitRow
  isContentType : String → Bool
  /-- SHA-256, in hex. -/
  digest : Bytes → ℕ

structure Input where
  scanId : ℕ
  userId : ℕ
  executionUnitId : ℕ
  contentType : String
  body : Bytes
  deriving DecidableEq

namespace Config

variable (c : Config)

def keyOf (input : Input) : Key := ⟨input.scanId, input.executionUnitId, c.digest input.body⟩

def rowOf (input : Input) : Artifact :=
  ⟨input.scanId, input.userId, input.executionUnitId, c.keyOf input, input.contentType, input.body.length⟩

/-- What is checked before anything is summed: the type, the unit's owner, and the size of the object. -/
def accepts (input : Input) : Bool :=
  c.isContentType input.contentType &&
    (match c.units input.executionUnitId with
      | some row => row.userId == input.userId && row.scanId == input.scanId
      | none => false) &&
    input.body.length ≤ c.maxObjectBytes

end Config

/-! ### Who is under way -/

/-- Where a call of `createArtifact` is. -/
inductive WriterPc where
  | start
  | budget
  | putting
  /-- The object is there. -/
  | locking
  /-- From here on the transaction holds the scan's lock. -/
  | recheck
  | finding
  | inserting
  /-- In the `catch`, after the refusal of the second check. -/
  | refused
  | deleting
  | ended
  deriving DecidableEq

def WriterPc.holdsLock : WriterPc → Bool
  | .recheck | .finding | .inserting => true
  | _ => false

/-- Past its put, and not refused. -/
def WriterPc.holdsObject : WriterPc → Bool
  | .locking | .recheck | .finding | .inserting => true
  | _ => false

structure Writer where
  input : Input
  pc : WriterPc
  deriving DecidableEq

/-- Where a run of `reclaimOrphanedArtifacts` is. -/
inductive ReaperPc where
  /-- The objects of the pages read so far, and when they were put. -/
  | listing (cutoff : ℤ) (found : List (Key × ℤ))
  | reading (old : List Key)
  | deleting (orphans : List Key)
  | ended
  deriving DecidableEq

/-- Where the retention sweep is with a scan. -/
inductive RetentionPc where
  | start (scanId : ℕ)
  | found (scanId : ℕ) (keys : List Key)
  /-- The rows with the second keys are deleted as soon as it commits. -/
  | doomed (keys rows : List Key)
  /-- Committed. -/
  | deleting (keys : List Key)
  | ended
  deriving DecidableEq

/-- What comes of a statement or a call. -/
inductive Reply where
  | answered
  /-- It had its effect, and the caller sees an error. -/
  | lost
  | unreached
  deriving DecidableEq

/-- What a statement does to the rows and the objects. -/
inductive Change where
  | none
  | put (key : Key)
  | delete (key : Key)
  | insert (row : Artifact)
  | deleteRows (keys : List Key)
  deriving DecidableEq

structure State where
  now : ℤ
  rows : List Artifact
  /-- The objects under `artifacts/`, and when they were last put. -/
  objects : Key → Option ℤ
  writers : List Writer
  reapers : List ReaperPc
  retentions : List RetentionPc

inductive Action where
  | tick (ms : ℕ)
  | createArtifact (input : Input)
  | write (i : ℕ) (reply : Reply)
  | reclaimOrphanedArtifacts
  /-- A page of the listing, with those of these keys that are there. -/
  | page (i : ℕ) (keys : List Key)
  | reap (i : ℕ) (reply : Reply)
  | enforceArtifactRetention (scanId : ℕ)
  | retain (i : ℕ) (reply : Reply)
  deriving DecidableEq

/-- The sum of the sizes of a scan's rows. -/
def scanBytes (rows : List Artifact) (scanId : ℕ) : ℕ := ((rows.filter fun row => row.scanId = scanId).map Artifact.sizeBytes).sum

namespace State

variable (s : State)

def start : State := ⟨0, [], fun _ => none, [], [], []⟩

def hasRow (key : Key) : Bool := s.rows.any fun row => row.storageKey = key

def keysOf (scanId : ℕ) : List Key := (s.rows.filter fun row => row.scanId = scanId).map Artifact.storageKey

def change : Change → State
  | .none => s
  | .put key => { s with objects := Function.update s.objects key (some s.now) }
  | .delete key => { s with objects := Function.update s.objects key none }
  | .insert row => { s with rows := s.rows ++ [row] }
  | .deleteRows keys => { s with rows := s.rows.filter fun row => row.storageKey ∉ keys }

/-- `pg_advisory_xact_lock` of the scan would be granted. -/
def lockFree (scanId : ℕ) : Bool := s.writers.all fun w => !(w.input.scanId == scanId && w.pc.holdsLock)

end State

/-! ### Their statements -/

/-- What a statement comes to, given where it leads when it is answered and what it does. -/
def onReply {α : Type} (ended next : α) (change : Change) : Reply → α × Change
  | .answered => (next, change)
  | .lost => (ended, change)
  | .unreached => (ended, .none)

/-- The next statement of a call of `createArtifact`. -/
def writerTurn (c : Config) (s : State) (w : Writer) (reply : Reply) : Option (WriterPc × Change) :=
  match w.pc with
  | .start => some (onReply .ended (if c.accepts w.input then .budget else .ended) .none reply)
  | .budget =>
    some (onReply .ended
      (if c.maxScanBytes < scanBytes s.rows w.input.scanId + w.input.body.length then .ended else .putting) .none reply)
  | .putting => some (onReply .ended .locking (.put (c.keyOf w.input)) reply)
  | .locking =>
    -- until the lock is granted, nothing but a failure ends the wait
    if reply = .answered ∧ s.lockFree w.input.scanId = false then none else some (onReply .ended .recheck .none reply)
  | .recheck =>
    some (onReply .ended
      (if c.maxScanBytes < scanBytes s.rows w.input.scanId + w.input.body.length then .refused else .finding) .none reply)
  | .finding => some (onReply .ended (if s.hasRow (c.keyOf w.input) then .ended else .inserting) .none reply)
  | .inserting => some (onReply .ended .ended (.insert (c.rowOf w.input)) reply)
  | .refused => some (onReply .ended (if s.hasRow (c.keyOf w.input) then .ended else .deleting) .none reply)
  | .deleting => some (onReply .ended .ended (.delete (c.keyOf w.input)) reply)
  | .ended => none

def reaperTurn (s : State) (pc : ReaperPc) (reply : Reply) : Option (ReaperPc × Change) :=
  match pc with
  | .listing cutoff found =>
    let old := (found.filter fun object => object.2 < cutoff).map Prod.fst
    some (onReply .ended (if old = [] then .ended else .reading old) .none reply)
  | .reading old => some (onReply .ended (.deleting (old.filter fun key => !s.hasRow key)) .none reply)
  | .deleting [] => some (.ended, .none)
  | .deleting (key :: keys) => some (onReply .ended (.deleting keys) (.delete key) reply)
  | .ended => none

/-- A delete of the retention sweep that fails is logged, and the next one is tried. -/
def retentionTurn (s : State) (pc : RetentionPc) (reply : Reply) : Option (RetentionPc × Change) :=
  match pc with
  | .start scanId =>
    some (onReply .ended (if s.keysOf scanId = [] then .ended else .found scanId (s.keysOf scanId)) .none reply)
  | .found scanId keys => some (onReply .ended (.doomed keys (s.keysOf scanId)) .none reply)
  | .doomed keys rows => some (onReply .ended (.deleting keys) (.deleteRows rows) reply)
  | .deleting [] => some (.ended, .none)
  | .deleting (key :: keys) => some (onReply (.deleting keys) (.deleting keys) (.delete key) reply)
  | .ended => none

def next (c : Config) (s : State) : Action → Option State
  | .tick ms => some { s with now := s.now + ms }
  | .createArtifact input => some { s with writers := s.writers ++ [⟨input, .start⟩] }
  | .write i reply => do
    let w ← s.writers[i]?
    let (pc, change) ← writerTurn c s w reply
    return { s.change change with writers := s.writers.set i { w with pc } }
  | .reclaimOrphanedArtifacts => some { s with reapers := s.reapers ++ [.listing (s.now - c.orphanGraceMs) []] }
  | .page i keys =>
    match s.reapers[i]? with
    | some (.listing cutoff found) =>
      let read := keys.filterMap fun key => (s.objects key).map fun lastModified => (key, lastModified)
      some { s with reapers := s.reapers.set i (.listing cutoff (found ++ read)) }
    | _ => none
  | .reap i reply => do
    let pc ← s.reapers[i]?
    let (pc, change) ← reaperTurn s pc reply
    return { s.change change with reapers := s.reapers.set i pc }
  | .enforceArtifactRetention scanId => some { s with retentions := s.retentions ++ [.start scanId] }
  | .retain i reply => do
    let pc ← s.retentions[i]?
    let (pc, change) ← retentionTurn s pc reply
    return { s.change change with retentions := s.retentions.set i pc }

def step (c : Config) (s : State) (a : Action) (s' : State) : Prop := next c s a = some s'

/-! ### What holds of the artifacts -/

/-- Every row has its object, the rows of a scan are within the budget, and no two rows share a key. -/
structure Intact (c : Config) (s : State) : Prop where
  stored : ∀ row ∈ s.rows, (s.objects row.storageKey).isSome
  budget : ∀ scanId, scanBytes s.rows scanId ≤ c.maxScanBytes
  unique : (s.rows.map Artifact.storageKey).Nodup

/-- What a step does to the rows and the objects. -/
def changeOf (c : Config) (s : State) (a : Action) : Change :=
  let turn := match a with
    | .write i reply => s.writers[i]?.bind fun w => (writerTurn c s w reply).map Prod.snd
    | .reap i reply => s.reapers[i]?.bind fun pc => (reaperTurn s pc reply).map Prod.snd
    | .retain i reply => s.retentions[i]?.bind fun pc => (retentionTurn s pc reply).map Prod.snd
    | _ => none
  turn.getD .none

/-- No row has the key, and no call that has put its object is on the way to one. -/
def orphan (c : Config) (s : State) (key : Key) : Bool :=
  !s.hasRow key && s.writers.all fun w => !(c.keyOf w.input == key && w.pc.holdsObject)

/-- Only orphans are deleted. -/
def careful (c : Config) (s : State) (a : Action) : Bool :=
  match changeOf c s a with
  | .delete key => orphan c s key
  | _ => true

/-! ### The rows, in every run -/

section Rows

variable {c : Config} {s s' : State} {a : Action} {w : Writer} {reply : Reply} {rows rows' : List Artifact}
  {writers : List Writer} {i : ℕ} {pc : WriterPc} {change : Change}

/-- What the next statement of a call does. -/
inductive WriterTurns (c : Config) (s : State) (w : Writer) : WriterPc → Change → Prop where
  /-- It goes on, or ends, without the lock and without an object of its own. -/
  | idle {pc : WriterPc} (hlock : pc.holdsLock = false) (hobject : pc.holdsObject = false) : WriterTurns c s w pc .none
  | put {pc : WriterPc} (hlock : pc.holdsLock = false) : WriterTurns c s w pc (.put (c.keyOf w.input))
  | lock (hpc : w.pc = .locking) (hfree : s.lockFree w.input.scanId = true) : WriterTurns c s w .recheck .none
  | room (hpc : w.pc = .recheck) (hroom : scanBytes s.rows w.input.scanId + w.input.body.length ≤ c.maxScanBytes) :
      WriterTurns c s w .finding .none
  | missing (hpc : w.pc = .finding) (hrow : s.hasRow (c.keyOf w.input) = false) : WriterTurns c s w .inserting .none
  | insert (hpc : w.pc = .inserting) : WriterTurns c s w .ended (.insert (c.rowOf w.input))
  | delete (hpc : w.pc = .deleting) : WriterTurns c s w .ended (.delete (c.keyOf w.input))

theorem onReply_none {α : Type} {ended next pc : α} (h : onReply ended next .none reply = (pc, change)) :
    change = .none ∧ (pc = next ∨ pc = ended) := by
  cases reply with
  | answered => cases h; exact ⟨rfl, .inl rfl⟩
  | lost => cases h; exact ⟨rfl, .inr rfl⟩
  | unreached => cases h; exact ⟨rfl, .inr rfl⟩

theorem onReply_some {α : Type} {ended next pc : α} {made : Change} (h : onReply ended next made reply = (pc, change)) :
    (change = made ∧ (pc = next ∨ pc = ended)) ∨ (change = .none ∧ pc = ended) := by
  cases reply with
  | answered => cases h; exact .inl ⟨rfl, .inl rfl⟩
  | lost => cases h; exact .inl ⟨rfl, .inr rfl⟩
  | unreached => cases h; exact .inr ⟨rfl, rfl⟩

theorem writerTurn_turns (h : writerTurn c s w reply = some (pc, change)) : WriterTurns c s w pc change := by
  unfold writerTurn at h
  cases hpc : w.pc with
  | start =>
    rw [hpc] at h
    obtain ⟨rfl, rfl | rfl⟩ := onReply_none (Option.some.inj h)
    · split
      · exact .idle rfl rfl
      · exact .idle rfl rfl
    · exact .idle rfl rfl
  | budget =>
    rw [hpc] at h
    obtain ⟨rfl, rfl | rfl⟩ := onReply_none (Option.some.inj h)
    · split
      · exact .idle rfl rfl
      · exact .idle rfl rfl
    · exact .idle rfl rfl
  | putting =>
    rw [hpc] at h
    obtain ⟨rfl, rfl | rfl⟩ | ⟨rfl, rfl⟩ := onReply_some (Option.some.inj h)
    · exact .put rfl
    · exact .put rfl
    · exact .idle rfl rfl
  | locking =>
    rw [hpc] at h
    dsimp only at h
    split at h
    · cases h
    · rename_i hwait
      cases reply with
      | answered =>
        cases h
        exact .lock hpc (by simpa using hwait)
      | lost =>
        cases h
        exact .idle rfl rfl
      | unreached =>
        cases h
        exact .idle rfl rfl
  | recheck =>
    rw [hpc] at h
    obtain ⟨rfl, rfl | rfl⟩ := onReply_none (Option.some.inj h)
    · split
      · exact .idle rfl rfl
      · rename_i hroom
        exact .room hpc (not_lt.mp hroom)
    · exact .idle rfl rfl
  | finding =>
    rw [hpc] at h
    obtain ⟨rfl, rfl | rfl⟩ := onReply_none (Option.some.inj h)
    · split
      · exact .idle rfl rfl
      · rename_i hrow
        exact .missing hpc (by simpa using hrow)
    · exact .idle rfl rfl
  | inserting =>
    rw [hpc] at h
    obtain ⟨rfl, rfl | rfl⟩ | ⟨rfl, rfl⟩ := onReply_some (Option.some.inj h)
    · exact .insert hpc
    · exact .insert hpc
    · exact .idle rfl rfl
  | refused =>
    rw [hpc] at h
    obtain ⟨rfl, rfl | rfl⟩ := onReply_none (Option.some.inj h)
    · split
      · exact .idle rfl rfl
      · exact .idle rfl rfl
    · exact .idle rfl rfl
  | deleting =>
    rw [hpc] at h
    obtain ⟨rfl, rfl | rfl⟩ | ⟨rfl, rfl⟩ := onReply_some (Option.some.inj h)
    · exact .delete hpc
    · exact .delete hpc
    · exact .idle rfl rfl
  | ended =>
    rw [hpc] at h
    cases h

/-- Nothing is added. -/
def Change.clears : Change → Bool
  | .put _ | .insert _ => false
  | _ => true

theorem reaperTurn_clears {before after : ReaperPc} (h : reaperTurn s before reply = some (after, change)) : change.clears = true := by
  unfold reaperTurn at h
  split at h
  · obtain ⟨rfl, -⟩ := onReply_none (Option.some.inj h)
    rfl
  · obtain ⟨rfl, -⟩ := onReply_none (Option.some.inj h)
    rfl
  · cases h
    rfl
  · obtain ⟨rfl, -⟩ | ⟨rfl, -⟩ := onReply_some (Option.some.inj h)
    · rfl
    · rfl
  · cases h

theorem retentionTurn_clears {before after : RetentionPc} (h : retentionTurn s before reply = some (after, change)) :
    change.clears = true := by
  unfold retentionTurn at h
  split at h
  · obtain ⟨rfl, -⟩ := onReply_none (Option.some.inj h)
    rfl
  · obtain ⟨rfl, -⟩ := onReply_none (Option.some.inj h)
    rfl
  · obtain ⟨rfl, -⟩ | ⟨rfl, -⟩ := onReply_some (Option.some.inj h)
    · rfl
    · rfl
  · cases h
    rfl
  · obtain ⟨rfl, -⟩ | ⟨rfl, -⟩ := onReply_some (Option.some.inj h)
    · rfl
    · rfl
  · cases h

/-- The rows, and what the calls under way have made sure of. -/
structure Kept (c : Config) (rows : List Artifact) (writers : List Writer) : Prop where
  budget : ∀ scanId, scanBytes rows scanId ≤ c.maxScanBytes
  unique : (rows.map Artifact.storageKey).Nodup
  lock : ∀ (i j : ℕ) (w w' : Writer), writers[i]? = some w → writers[j]? = some w' → w.input.scanId = w'.input.scanId →
    w.pc.holdsLock = true → w'.pc.holdsLock = true → i = j
  room : ∀ w ∈ writers, w.pc = .finding ∨ w.pc = .inserting →
    scanBytes rows w.input.scanId + w.input.body.length ≤ c.maxScanBytes
  fresh : ∀ w ∈ writers, w.pc = .inserting → ∀ row ∈ rows, row.storageKey ≠ c.keyOf w.input

theorem scanBytes_append (row : Artifact) (scanId : ℕ) :
    scanBytes (rows ++ [row]) scanId = scanBytes rows scanId + if row.scanId = scanId then row.sizeBytes else 0 := by
  unfold scanBytes
  rw [List.filter_append, List.map_append, List.sum_append]
  by_cases h : row.scanId = scanId
  · simp [h]
  · simp [h]

theorem scanBytes_sublist (h : rows'.Sublist rows) (scanId : ℕ) : scanBytes rows' scanId ≤ scanBytes rows scanId :=
  ((h.filter _).map _).sum_le_sum fun _ _ => Nat.zero_le _

theorem Kept.sublist (h : Kept c rows writers) (hsub : rows'.Sublist rows) : Kept c rows' writers where
  budget scanId := (scanBytes_sublist hsub scanId).trans (h.budget scanId)
  unique := h.unique.sublist (hsub.map _)
  lock := h.lock
  room w hw hpc := le_trans (Nat.add_le_add_right (scanBytes_sublist hsub _) _) (h.room w hw hpc)
  fresh w hw hpc row hrow := h.fresh w hw hpc row (hsub.subset hrow)

/-- A call that gives up the lock, or never had it. -/
theorem Kept.release (h : Kept c rows writers) {w' : Writer} (hlock : w'.pc.holdsLock = false) : Kept c rows (writers.set i w') where
  budget := h.budget
  unique := h.unique
  lock j k v v' hv hv' hsame hheld hheld' := by
    rcases getElem?_set_split hv with ⟨-, rfl⟩ | ⟨-, hv⟩
    · cases hlock.symm.trans hheld
    · rcases getElem?_set_split hv' with ⟨-, rfl⟩ | ⟨-, hv'⟩
      · cases hlock.symm.trans hheld'
      · exact h.lock j k v v' hv hv' hsame hheld hheld'
  room v hv hpc := by
    rcases List.mem_or_eq_of_mem_set hv with hv | rfl
    · exact h.room v hv hpc
    · rcases hpc with hpc | hpc
      · rw [hpc] at hlock
        cases hlock
      · rw [hpc] at hlock
        cases hlock
  fresh v hv hpc := by
    rcases List.mem_or_eq_of_mem_set hv with hv | rfl
    · exact h.fresh v hv hpc
    · rw [hpc] at hlock
      cases hlock

/-- A call that goes on in its transaction. -/
theorem Kept.advance (h : Kept c rows writers) {w' : Writer} (hi : writers[i]? = some w) (hinput : w'.input = w.input)
    (hlock : w.pc.holdsLock = true ∨ ∀ v ∈ writers, v.input.scanId = w.input.scanId → v.pc.holdsLock = false)
    (hroom : w'.pc = .finding ∨ w'.pc = .inserting → scanBytes rows w.input.scanId + w.input.body.length ≤ c.maxScanBytes)
    (hfresh : w'.pc = .inserting → ∀ row ∈ rows, row.storageKey ≠ c.keyOf w.input) : Kept c rows (writers.set i w') where
  budget := h.budget
  unique := h.unique
  lock j k v v' hv hv' hsame hheld hheld' := by
    -- another call of the scan does not hold the lock while this one does, or takes it
    have hother (l : ℕ) (u : Writer) (hl : l ≠ i) (hu : writers[l]? = some u) (hscan : u.input.scanId = w.input.scanId)
        (hheld : u.pc.holdsLock = true) : False := by
      rcases hlock with hw | hfree
      · exact hl (h.lock l i u w hu hi hscan hheld hw)
      · cases (hfree u (List.mem_of_getElem? hu) hscan).symm.trans hheld
    rcases getElem?_set_split hv with ⟨hj, rfl⟩ | ⟨hj, hv⟩
    · rcases getElem?_set_split hv' with ⟨hk, -⟩ | ⟨hk, hv'⟩
      · exact hj.trans hk.symm
      · exact (hother k v' hk hv' (by rw [← hsame, hinput]) hheld').elim
    · rcases getElem?_set_split hv' with ⟨-, heq⟩ | ⟨-, hv'⟩
      · exact (hother j v hj hv (by rw [hsame, heq, hinput]) hheld).elim
      · exact h.lock j k v v' hv hv' hsame hheld hheld'
  room v hv hpc := by
    rcases List.mem_or_eq_of_mem_set hv with hv | rfl
    · exact h.room v hv hpc
    · rw [hinput]
      exact hroom hpc
  fresh v hv hpc := by
    rcases List.mem_or_eq_of_mem_set hv with hv | rfl
    · exact h.fresh v hv hpc
    · rw [hinput]
      exact hfresh hpc

/-- The row of a call that has found room, and no row with its key. -/
theorem Kept.insert (h : Kept c rows writers) (hi : writers[i]? = some w) (hpc : w.pc = .inserting) :
    Kept c (rows ++ [c.rowOf w.input]) (writers.set i { w with pc := .ended }) := by
  have hw := List.mem_of_getElem? hi
  have hheld : w.pc.holdsLock = true := by rw [hpc]; rfl
  have hroom := h.room w hw (.inr hpc)
  have hfresh := h.fresh w hw hpc
  have hkept := @Kept.release c rows writers i h { w with pc := .ended } rfl
  -- no other call of the scan is in its transaction
  have hother (v : Writer) (hv : v ∈ writers.set i { w with pc := .ended }) (hscan : v.input.scanId = w.input.scanId) :
      v.pc.holdsLock = false := by
    obtain ⟨j, hj⟩ := List.getElem?_of_mem hv
    rcases getElem?_set_split hj with ⟨-, rfl⟩ | ⟨hne, hj⟩
    · rfl
    · exact Bool.eq_false_iff.mpr fun hheld' => hne (h.lock j i v w hj hi hscan hheld' hheld)
  refine ⟨fun scanId => ?_, ?_, hkept.lock, fun v hv hvpc => ?_, fun v hv hvpc row hrow => ?_⟩
  · rw [scanBytes_append]
    split
    · rename_i hscan
      rw [← hscan]
      exact hroom
    · exact h.budget scanId
  · rw [List.map_append]
    refine List.nodup_append.mpr ⟨h.unique, by simp, fun key hkey key' hkey' => ?_⟩
    obtain ⟨row, hrow, rfl⟩ := List.mem_map.mp hkey
    obtain rfl := List.mem_singleton.mp hkey'
    exact hfresh row hrow
  · have hscan : (c.rowOf w.input).scanId ≠ v.input.scanId := fun heq => by
      have hnot := hother v hv heq.symm
      rcases hvpc with hvpc | hvpc
      · rw [hvpc] at hnot
        cases hnot
      · rw [hvpc] at hnot
        cases hnot
    rw [scanBytes_append, if_neg hscan]
    exact hkept.room v hv hvpc
  · rcases List.mem_append.mp hrow with hrow | hrow
    · exact hkept.fresh v hv hvpc row hrow
    · intro heq
      rw [List.mem_singleton.mp hrow] at heq
      have hscan : w.input.scanId = v.input.scanId := congrArg Key.scanId heq
      have hnot := hother v hv hscan.symm
      rw [hvpc] at hnot
      cases hnot

/-- **The step of a call.** -/
theorem Kept.turn (h : Kept c s.rows s.writers) (hi : s.writers[i]? = some w) (hturn : WriterTurns c s w pc change) :
    Kept c (s.change change).rows (s.writers.set i { w with pc }) := by
  have hw := List.mem_of_getElem? hi
  cases hturn with
  | idle hlock _ => exact h.release hlock
  | put hlock => exact h.release hlock
  | delete _ => exact h.release rfl
  | insert hpc => exact h.insert hi hpc
  | lock hpc hfree =>
    refine h.advance hi rfl (.inr fun v hv hscan => ?_) (fun hgoes => ?_) nofun
    · have hv' := List.all_eq_true.mp hfree v hv
      simpa [hscan] using hv'
    · rcases hgoes with hgoes | hgoes
      · cases hgoes
      · cases hgoes
  | room hpc hroom =>
    exact h.advance hi rfl (.inl (by rw [hpc]; rfl)) (fun _ => hroom) nofun
  | missing hpc hrow =>
    refine h.advance hi rfl (.inl (by rw [hpc]; rfl)) (fun _ => h.room w hw (.inl hpc)) fun _ row hmem heq => ?_
    unfold State.hasRow at hrow
    rw [List.any_eq_false] at hrow
    exact hrow row hmem (decide_eq_true heq)

theorem Kept.clear (h : Kept c s.rows writers) (hclear : change.clears = true) : Kept c (s.change change).rows writers := by
  cases change with
  | none => exact h
  | delete key => exact h
  | deleteRows keys => exact h.sublist List.filter_sublist
  | put key => cases hclear
  | insert row => cases hclear

theorem change_writers (s : State) (change : Change) : (s.change change).writers = s.writers := by cases change <;> rfl

/-- **The step.** -/
theorem kept_next (h : Kept c s.rows s.writers) (hnext : next c s a = some s') : Kept c s'.rows s'.writers := by
  cases a with
  | tick ms =>
    cases hnext
    exact h
  | createArtifact input =>
    cases hnext
    have hnew (v : Writer) (hv : v ∈ s.writers ++ [⟨input, .start⟩]) : v ∈ s.writers ∨ v.pc = .start := by
      rcases List.mem_append.mp hv with hv | hv
      · exact .inl hv
      · rw [List.mem_singleton.mp hv]
        exact .inr rfl
    have hold (j : ℕ) (v : Writer) (hv : (s.writers ++ [⟨input, .start⟩])[j]? = some v) (hheld : v.pc.holdsLock = true) :
        s.writers[j]? = some v := by
      by_cases hj : j < s.writers.length
      · rwa [List.getElem?_append_left hj] at hv
      · rw [List.getElem?_append_right (not_lt.mp hj)] at hv
        rw [List.mem_singleton.mp (List.mem_of_getElem? hv)] at hheld
        cases hheld
    refine ⟨h.budget, h.unique, fun j k v v' hv hv' hsame hheld hheld' => ?_, fun v hv hpc => ?_, fun v hv hpc => ?_⟩
    · exact h.lock j k v v' (hold j v hv hheld) (hold k v' hv' hheld') hsame hheld hheld'
    · rcases hnew v hv with hv | hstart
      · exact h.room v hv hpc
      · rw [hstart] at hpc
        rcases hpc with hpc | hpc
        · cases hpc
        · cases hpc
    · rcases hnew v hv with hv | hstart
      · exact h.fresh v hv hpc
      · cases hstart.symm.trans hpc
  | write i reply =>
    obtain ⟨w, hi, hnext⟩ := Option.bind_eq_some_iff.mp hnext
    obtain ⟨⟨pc, change⟩, hturn, hs⟩ := Option.bind_eq_some_iff.mp hnext
    cases hs
    exact h.turn hi (writerTurn_turns hturn)
  | reclaimOrphanedArtifacts =>
    cases hnext
    exact h
  | page i keys =>
    unfold next at hnext
    dsimp only at hnext
    split at hnext
    · cases hnext
      exact h
    · cases hnext
  | reap i reply =>
    obtain ⟨pc, -, hnext⟩ := Option.bind_eq_some_iff.mp hnext
    obtain ⟨⟨pc', change⟩, hturn, hs⟩ := Option.bind_eq_some_iff.mp hnext
    cases hs
    change Kept c (s.change change).rows (s.change change).writers
    rw [change_writers]
    exact h.clear (reaperTurn_clears hturn)
  | enforceArtifactRetention scanId =>
    cases hnext
    exact h
  | retain i reply =>
    obtain ⟨pc, -, hnext⟩ := Option.bind_eq_some_iff.mp hnext
    obtain ⟨⟨pc', change⟩, hturn, hs⟩ := Option.bind_eq_some_iff.mp hnext
    cases hs
    change Kept c (s.change change).rows (s.change change).writers
    rw [change_writers]
    exact h.clear (retentionTurn_clears hturn)

/-- **Budget and keys**, in every run. -/
theorem kept_of_run (h : Reaches (step c) .start s) : Kept c s.rows s.writers := by
  have hstart : Kept c State.start.rows State.start.writers :=
    ⟨fun _ => Nat.zero_le _, by simp [State.start], fun _ _ _ _ h => by simp [State.start] at h,
      fun _ h => (List.not_mem_nil h).elim, fun _ h => (List.not_mem_nil h).elim⟩
  exact h.inv (I := fun s => Kept c s.rows s.writers) hstart fun _ _ _ hu hs => kept_next hu hs

end Rows

/-! ### The objects, while only orphans are deleted -/

section Objects

variable {c : Config} {s s' : State} {a : Action} {w : Writer} {i : ℕ} {pc : WriterPc} {change : Change} {rows : List Artifact}
  {objects : Key → Option ℤ} {writers : List Writer}

/-- The objects that rows name, and those of the calls past their put. -/
structure Present (c : Config) (rows : List Artifact) (objects : Key → Option ℤ) (writers : List Writer) : Prop where
  stored : ∀ row ∈ rows, (objects row.storageKey).isSome
  coming : ∀ w ∈ writers, w.pc.holdsObject = true → (objects (c.keyOf w.input)).isSome

theorem isSome_update {key key' : Key} {now : ℤ} (h : (objects key').isSome) :
    (Function.update objects key (some now) key').isSome := by
  by_cases heq : key' = key
  · subst heq
    rw [Function.update_self]
    rfl
  · rwa [Function.update_of_ne heq]

/-- What is done besides inserting, when what is deleted is an orphan. -/
theorem Present.keep (h : Present c s.rows s.objects s.writers) (change : Change) (hinsert : ∀ row, change ≠ .insert row)
    (horphan : ∀ key, change = .delete key → orphan c s key = true) :
    Present c (s.change change).rows (s.change change).objects s.writers := by
  cases change with
  | none => exact h
  | put key => exact ⟨fun row hrow => isSome_update (h.stored row hrow), fun v hv hpc => isSome_update (h.coming v hv hpc)⟩
  | delete key =>
    obtain ⟨hrows, hwriters⟩ := Bool.and_eq_true _ _ |>.mp (horphan key rfl)
    have hkeep {key' : Key} (hne : key' ≠ key) : Function.update s.objects key none key' = s.objects key' := Function.update_of_ne hne _ _
    refine ⟨fun row hrow => ?_, fun v hv hpc => ?_⟩
    · have hne : row.storageKey ≠ key := fun heq => by
        unfold State.hasRow at hrows
        have hnot := List.any_eq_false.mp (Bool.not_eq_true' _ |>.mp hrows) row hrow
        exact hnot (decide_eq_true heq)
      change (Function.update s.objects key none row.storageKey).isSome
      rw [hkeep hne]
      exact h.stored row hrow
    · have hne : c.keyOf v.input ≠ key := fun heq => by
        have hv' := List.all_eq_true.mp hwriters v hv
        simp [heq, hpc] at hv'
      change (Function.update s.objects key none (c.keyOf v.input)).isSome
      rw [hkeep hne]
      exact h.coming v hv hpc
  | insert row => exact absurd rfl (hinsert row)
  | deleteRows keys => exact ⟨fun row hrow => h.stored row (List.mem_filter.mp hrow).1, h.coming⟩

theorem Present.set (h : Present c rows objects writers) {w' : Writer}
    (hw' : w'.pc.holdsObject = true → (objects (c.keyOf w'.input)).isSome) : Present c rows objects (writers.set i w') where
  stored := h.stored
  coming v hv hpc := by
    rcases List.mem_or_eq_of_mem_set hv with hv | rfl
    · exact h.coming v hv hpc
    · exact hw' hpc

theorem Present.turn (h : Present c s.rows s.objects s.writers) (hi : s.writers[i]? = some w) (hturn : WriterTurns c s w pc change)
    (horphan : ∀ key, change = .delete key → orphan c s key = true) :
    Present c (s.change change).rows (s.change change).objects (s.writers.set i { w with pc }) := by
  have hw := List.mem_of_getElem? hi
  cases hturn with
  | idle _ hobject => exact h.set fun hpc => by cases hobject.symm.trans hpc
  | put _ =>
    refine (h.keep (.put (c.keyOf w.input)) nofun horphan).set fun _ => ?_
    change (Function.update s.objects (c.keyOf w.input) (some s.now) (c.keyOf w.input)).isSome
    rw [Function.update_self]
    rfl
  | lock hpc _ => exact h.set fun _ => h.coming w hw (by rw [hpc]; rfl)
  | room hpc _ => exact h.set fun _ => h.coming w hw (by rw [hpc]; rfl)
  | missing hpc _ => exact h.set fun _ => h.coming w hw (by rw [hpc]; rfl)
  | delete _ => exact (h.keep (.delete (c.keyOf w.input)) nofun horphan).set fun hpc => (nomatch hpc)
  | insert hpc =>
    have hended : ({ w with pc := .ended } : Writer).pc.holdsObject = true → (s.objects (c.keyOf w.input)).isSome := fun hpc => by
      cases hpc
    refine ⟨fun row hrow => ?_, (h.set hended).coming⟩
    rcases List.mem_append.mp hrow with hrow | hrow
    · exact h.stored row hrow
    · rw [List.mem_singleton.mp hrow]
      exact h.coming w hw (by rw [hpc]; rfl)

theorem present_next (h : Present c s.rows s.objects s.writers) (hnext : next c s a = some s') (hcareful : careful c s a = true) :
    Present c s'.rows s'.objects s'.writers := by
  have horphan {change : Change} (hchange : changeOf c s a = change) : ∀ key, change = .delete key → orphan c s key = true :=
    fun key hkey => by
      unfold careful at hcareful
      rw [hchange, hkey] at hcareful
      exact hcareful
  cases a with
  | tick ms =>
    cases hnext
    exact h
  | createArtifact input =>
    cases hnext
    refine ⟨h.stored, fun v hv hpc => ?_⟩
    rcases List.mem_append.mp hv with hv | hv
    · exact h.coming v hv hpc
    · rw [List.mem_singleton.mp hv] at hpc
      cases hpc
  | write i reply =>
    obtain ⟨w, hi, hnext⟩ := Option.bind_eq_some_iff.mp hnext
    obtain ⟨⟨pc, change⟩, hturn, hs⟩ := Option.bind_eq_some_iff.mp hnext
    cases hs
    exact h.turn hi (writerTurn_turns hturn) (horphan (by simp [changeOf, hi, hturn]))
  | reclaimOrphanedArtifacts =>
    cases hnext
    exact h
  | page i keys =>
    unfold next at hnext
    dsimp only at hnext
    split at hnext
    · cases hnext
      exact h
    · cases hnext
  | reap i reply =>
    obtain ⟨pc, hi, hnext⟩ := Option.bind_eq_some_iff.mp hnext
    obtain ⟨⟨pc', change⟩, hturn, hs⟩ := Option.bind_eq_some_iff.mp hnext
    cases hs
    have hclears := reaperTurn_clears hturn
    have hpresent := h.keep change (fun row hc => by rw [hc] at hclears; cases hclears) (horphan (by simp [changeOf, hi, hturn]))
    rw [← change_writers s change] at hpresent
    exact hpresent
  | enforceArtifactRetention scanId =>
    cases hnext
    exact h
  | retain i reply =>
    obtain ⟨pc, hi, hnext⟩ := Option.bind_eq_some_iff.mp hnext
    obtain ⟨⟨pc', change⟩, hturn, hs⟩ := Option.bind_eq_some_iff.mp hnext
    cases hs
    have hclears := retentionTurn_clears hturn
    have hpresent := h.keep change (fun row hc => by rw [hc] at hclears; cases hclears) (horphan (by simp [changeOf, hi, hturn]))
    rw [← change_writers s change] at hpresent
    exact hpresent

/-- **The artifacts.** In a run in which only orphans are deleted, every row has its object, the rows of each scan are
within the budget, and no two share a key. -/
theorem artifacts_intact (h : Reaches (Guarded (step c) fun s a _ => careful c s a = true) .start s) : Intact c s := by
  have hkept := kept_of_run h.of_guarded
  have hstart : Present c State.start.rows State.start.objects State.start.writers :=
    ⟨fun _ h => (List.not_mem_nil h).elim, fun _ h => (List.not_mem_nil h).elim⟩
  have hpresent := h.inv (I := fun s => Present c s.rows s.objects s.writers) hstart fun _ _ _ hu hs => present_next hu hs.1 hs.2
  exact ⟨hpresent.stored, hkept.budget, hkept.unique⟩

end Objects

/-! ### An old orphan, put again -/

def sampleConfig : Config where
  maxObjectBytes := 50
  maxScanBytes := 500
  orphanGraceMs := 3600000
  units unit := if unit = 7 then some ⟨1, 3⟩ else none
  isContentType _ := true
  digest body := body.length

def sampleInput : Input := ⟨3, 1, 7, "text/plain", [0x61]⟩

/-- The statements of a call that inserts its row. -/
def wholeCall (i : ℕ) : List Action := List.replicate 7 (.write i .answered)

/-- Two calls with one content, and a run of the reaper between them. -/
theorem artifacts_intact_two : ∃ s : State, s.rows.length = 1 ∧ Intact sampleConfig s := by
  obtain ⟨s, hs, hrows⟩ := Reaches.exists_of_play (next sampleConfig) (careful sampleConfig) .start
    (([.createArtifact sampleInput] : List Action) ++ wholeCall 0 ++ ([.reclaimOrphanedArtifacts, .page 0 [sampleConfig.keyOf sampleInput],
      .reap 0 .answered, .createArtifact sampleInput] : List Action) ++ List.replicate 6 (.write 1 .answered : Action)) (fun s => s.rows.length = 1) (by decide)
  exact ⟨s, hrows, artifacts_intact hs⟩

/-- A call whose insert fails leaves an object. More than the grace period later the reaper lists it and finds no row;
then the content is put again, with its row; then the reaper deletes the object. -/
theorem reaped_with_row : ∃ s : State, Reaches (step sampleConfig) .start s ∧ ¬ Intact sampleConfig s := by
  obtain ⟨s, hs, hrow⟩ := Reaches.exists_of_play (next sampleConfig) (fun _ _ => true) .start
    (([.createArtifact sampleInput] : List Action) ++ List.replicate 6 (.write 0 .answered : Action) ++ ([.write 0 .unreached, .tick 3600001,
      .reclaimOrphanedArtifacts, .page 0 [sampleConfig.keyOf sampleInput], .reap 0 .answered, .reap 0 .answered,
      .createArtifact sampleInput] : List Action) ++ wholeCall 1 ++ ([.reap 0 .answered] : List Action))
    (fun s => ∃ row ∈ s.rows, s.objects row.storageKey = none) (by decide)
  refine ⟨s, hs.of_guarded, fun hintact => ?_⟩
  obtain ⟨row, hmem, hnone⟩ := hrow
  have hstored := hintact.stored row hmem
  rw [hnone] at hstored
  cases hstored

end WebAudit.Storage.Artifacts
