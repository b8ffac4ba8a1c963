import WebAudit.Lib.Rows
import WebAudit.Lib.Runs

/-!
# Uploaded capabilities

`admin/capability-upload.service.ts`, `admin/capabilities.service.ts` and `registry/reconcile.ts`. What is on the disk
exists, what is enabled the database says: an upload writes two files and reconciles, a removal deletes the files inside
the transaction that deletes the row, and a reconciliation applies what it has discovered before.

Any number of calls go on at once, one file operation or statement at a time, and each may fail or its process die at any
of them; then its transaction is rolled back, but not its files. A write leaves what was written last: what two writers of
one file make of it while both have it open is not told apart.
-/

namespace WebAudit.Registry.Installed

open WebAudit.Lib

/-! ### Files and rows -/

inductive TrustLevel where
  | VENDORED
  | INSTALLED
  deriving DecidableEq

/-- `capability.manifest.json`; the other fields are the same for every upload. -/
structure Manifest where
  id : ℕ
  name : String
  version : String
  module : String
  layer : String
  deriving DecidableEq

/-- A bundle, what the operator calls it, and what the sandbox reports of it. -/
structure Upload where
  capabilityId : ℕ
  bundle : ℕ
  name : String
  version : String
  module : String
  layer : String
  deriving DecidableEq

def Upload.manifest (u : Upload) : Manifest := ⟨u.capabilityId, u.name, u.version, u.module, u.layer⟩

inductive File (α : Type) where
  | absent
  /-- Truncated, and not written yet. -/
  | torn
  | whole (content : α)
  deriving DecidableEq

/-- `installedRoot/<id>/`. -/
structure Dir where
  there : Bool
  bundle : File ℕ
  manifest : File Manifest
  deriving DecidableEq

def Dir.cleared (dir : Dir) : Bool := dir.bundle = .absent && dir.manifest = .absent

/-- A row of `Capability`. -/
structure Row where
  name : String
  version : String
  module : String
  layer : String
  trust : TrustLevel
  isEnabled : Bool
  deriving DecidableEq

/-- What the calls rely on. -/
structure Config where
  /-- The manifests under the vendored root. -/
  vendored : List Manifest
  /-- `parseManifest` accepts it. -/
  valid : Manifest → Bool

/-! ### Calls -/

/-- Where a call of `uploadCapability` is. -/
inductive UploadPc where
  | check
  | mkdir
  | openBundle
  | writeBundle
  | openManifest
  | writeManifest
  | ended
  deriving DecidableEq

inductive Removed where
  | removed
  | refused
  | failed
  deriving DecidableEq

/-- Where a call of `removeCapability` is; `erased` says whether it has deleted a file or the row. -/
inductive RemovalPc where
  | start
  /-- From here on with the trust that was read first. -/
  | locking (trust : TrustLevel)
  | recount (trust : TrustLevel)
  | erasing (erased : Bool)
  | deleting (erased : Bool)
  | ended (outcome : Removed) (erased : Bool)
  deriving DecidableEq

abbrev Found := Manifest × TrustLevel

/-- Where a run of `reconcileNow` is. -/
inductive ReconcilePc where
  | start
  | reading (names : List ℕ) (found : List Found)
  | asserting (found todo : List Found)
  | existing (found : List Found)
  /-- With whether a row was there. -/
  | applying (todo : List (Found × Bool))
  | ended
  deriving DecidableEq

inductive Call where
  | upload (u : Upload) (pc : UploadPc)
  | removal (id : ℕ) (pc : RemovalPc)
  | reconcile (pc : ReconcilePc)
  deriving DecidableEq

/-- A directory of the installed root is being written, or has been emptied in part or whole. -/
def Call.busy (id : ℕ) : Call → Bool
  | .upload u pc => u.capabilityId == id && (pc == .writeBundle || pc == .openManifest || pc == .writeManifest)
  | .removal id' pc => id' == id && (pc == .erasing true || pc == .deleting true)
  | .reconcile _ => false

/-- A transaction holds `FOR UPDATE` on the row. -/
def Call.locks (id : ℕ) : Call → Bool
  | .removal id' (.recount _) => id' == id
  | .removal id' (.erasing _) => id' == id
  | .removal id' (.deleting _) => id' == id
  | _ => false

/-- What has been discovered and is still to be applied. -/
def ReconcilePc.pending : ReconcilePc → List Found
  | .start => []
  | .reading _ found => found
  | .asserting found _ => found
  | .existing found => found
  | .applying todo => todo.map Prod.fst
  | .ended => []

def Call.pending : Call → List Found
  | .reconcile pc => pc.pending
  | _ => []

structure State where
  rows : ℕ → Option Row
  /-- `CapabilityExecution` rows. -/
  executions : ℕ → ℕ
  disk : ℕ → Dir
  /-- Uploads that have passed conformance. -/
  passed : List Upload
  /-- Removed with success, and not uploaded since. -/
  removed : ℕ → Bool
  calls : List Call

inductive Reply where
  | answered
  /-- It had its effect, and the caller sees an error. -/
  | lost
  | unreached
  deriving DecidableEq

inductive Verdict where
  | unavailable
  | failed
  | passed
  deriving DecidableEq

inductive Entry where
  | bundle
  | manifest
  | directory
  deriving DecidableEq

/-- What a call meets at its next step: each step looks at its own part of it. -/
structure Meets where
  reply : Reply
  /-- Of the sandbox. -/
  verdict : Verdict
  /-- The entry that `rm` takes next. -/
  entry : Entry
  /-- The directories of the installed root that are listed. -/
  names : List ℕ
  /-- Vendored capabilities that cannot be read. -/
  missed : List ℕ
  deriving DecidableEq

inductive Action where
  | uploadCapability (u : Upload)
  | removeCapability (id : ℕ)
  | reconcileNow
  | turn (i : ℕ) (m : Meets)
  | setCapabilityEnabled (id : ℕ) (isEnabled : Bool)
  /-- A scan records an execution. -/
  | execute (id : ℕ)
  deriving DecidableEq

inductive Change where
  | none
  | pass (u : Upload)
  | mkdir (id : ℕ)
  | openBundle (id : ℕ)
  | writeBundle (u : Upload)
  | openManifest (id : ℕ)
  | writeManifest (u : Upload)
  | unlink (id : ℕ) (entry : Entry)
  | deleteRow (id : ℕ) (answered : Bool)
  | save (found : Found)
  deriving DecidableEq

namespace State

variable (s : State)

def start : State := ⟨fun _ => none, fun _ => 0, fun _ => ⟨false, .absent, .absent⟩, [], fun _ => false, []⟩

def locked (id : ℕ) : Bool := s.calls.any (Call.locks id)

def setDir (id : ℕ) (dir : Dir) : State := { s with disk := Function.update s.disk id dir }

/-- Of a row that is there, everything but `isEnabled`. -/
def save (found : Found) : State :=
  let (m, trust) := found
  let isEnabled := match s.rows m.id with
    | some row => row.isEnabled
    | none => true
  { s with rows := Function.update s.rows m.id (some ⟨m.name, m.version, m.module, m.layer, trust, isEnabled⟩) }

def change : Change → State
  | .none => s
  | .pass u => { s with passed := s.passed ++ [u] }
  | .mkdir id => s.setDir id { s.disk id with there := true }
  | .openBundle id => { s.setDir id { s.disk id with bundle := .torn } with removed := Function.update s.removed id false }
  -- a file that was unlinked stays so
  | .writeBundle u =>
    if (s.disk u.capabilityId).bundle = .absent then s
    else s.setDir u.capabilityId { s.disk u.capabilityId with bundle := .whole u.bundle }
  | .openManifest id => s.setDir id { s.disk id with manifest := .torn }
  | .writeManifest u =>
    if (s.disk u.capabilityId).manifest = .absent then s
    else s.setDir u.capabilityId { s.disk u.capabilityId with manifest := .whole u.manifest }
  | .unlink id .bundle => s.setDir id { s.disk id with bundle := .absent }
  | .unlink id .manifest => s.setDir id { s.disk id with manifest := .absent }
  | .unlink id .directory => s.setDir id { s.disk id with there := false }
  | .deleteRow id answered =>
    { s with rows := Function.update s.rows id none, removed := if answered then Function.update s.removed id true else s.removed }
  | .save found => s.save found

end State

/-! ### The next step of a call -/

/-- What a step comes to, given where it leads when it is answered and what it does. -/
def onReply {α : Type} (ended next : α) (change : Change) : Reply → α × Change
  | .answered => (next, change)
  | .lost => (ended, change)
  | .unreached => (ended, .none)

def uploadTurn (s : State) (u : Upload) (pc : UploadPc) (m : Meets) : Option (Call × Change) :=
  let ended : Call := .upload u .ended
  match pc with
  | .check =>
    match m.reply, m.verdict with
    | .answered, .passed => some (.upload u .mkdir, .pass u)
    | _, _ => some (ended, .none)
  | .mkdir => some (onReply ended (.upload u .openBundle) (.mkdir u.capabilityId) m.reply)
  | .openBundle =>
    if (s.disk u.capabilityId).there then some (onReply ended (.upload u .writeBundle) (.openBundle u.capabilityId) m.reply)
    else some (ended, .none)
  | .writeBundle => some (onReply ended (.upload u .openManifest) (.writeBundle u) m.reply)
  | .openManifest =>
    if (s.disk u.capabilityId).there then some (onReply ended (.upload u .writeManifest) (.openManifest u.capabilityId) m.reply)
    else some (ended, .none)
  -- it goes on as a reconciliation
  | .writeManifest => some (onReply ended (.reconcile .start) (.writeManifest u) m.reply)
  | .ended => none

/-- One entry of the directory; the directory itself once it is empty. -/
def rmTurn (s : State) (id : ℕ) (erased : Bool) (m : Meets) : Option (Call × Change) :=
  let dir := s.disk id
  if !dir.there then some (.removal id (.deleting erased), .none)
  else
    match m.reply with
    | .unreached => some (.removal id (.ended .failed erased), .none)
    | reply =>
      let pc : RemovalPc := if reply = .lost then .ended .failed true else .erasing true
      match m.entry with
      | .bundle => if dir.bundle = .absent then none else some (.removal id pc, .unlink id .bundle)
      | .manifest => if dir.manifest = .absent then none else some (.removal id pc, .unlink id .manifest)
      | .directory =>
        if dir.cleared then
          some (.removal id (if reply = .lost then .ended .failed erased else .deleting erased), .unlink id .directory)
        else none

def removalTurn (s : State) (id : ℕ) (pc : RemovalPc) (m : Meets) : Option (Call × Change) :=
  match pc with
  | .start =>
    some (onReply (.removal id (.ended .failed false))
      (match s.rows id with
        | none => .removal id (.ended .failed false)
        | some row => .removal id (if 0 < s.executions id then .ended .refused false else .locking row.trust)) .none m.reply)
  | .locking trust =>
    if m.reply = .answered ∧ s.locked id then none
    else
      some (onReply (.removal id (.ended .failed false))
        (.removal id (if (s.rows id).isSome then .recount trust else .ended .failed false)) .none m.reply)
  | .recount trust =>
    some (onReply (.removal id (.ended .failed false))
      (.removal id (if 0 < s.executions id then .ended .refused false
        else if trust = .INSTALLED then .erasing false else .deleting false)) .none m.reply)
  | .erasing erased => rmTurn s id erased m
  | .deleting erased =>
    match m.reply with
    | .answered => some (.removal id (.ended .removed true), .deleteRow id true)
    | .lost => some (.removal id (.ended .failed true), .deleteRow id false)
    | .unreached => some (.removal id (.ended .failed erased), .none)
  | .ended _ _ => none

/-- `loadOne`, with the ids that were seen before. -/
def loadOne (c : Config) (s : State) (name : ℕ) (found : List Found) : List Found :=
  match (s.disk name).manifest with
  | .whole m => if c.valid m && m.id == name && !(found.any fun f => f.1.id == name) then found ++ [(m, .INSTALLED)] else found
  | _ => found

def applyTurn (s : State) (found : Found) (existing : Bool) (todo : List (Found × Bool)) (m : Meets) : Option (Call × Change) :=
  if existing then
    if m.reply = .answered ∧ s.locked found.1.id then none
    else if (s.rows found.1.id).isSome && !s.locked found.1.id then
      some (onReply (.reconcile .ended) (.reconcile (.applying todo)) (.save found) m.reply)
    else some (.reconcile .ended, .none)
  else if (s.rows found.1.id).isSome then some (.reconcile .ended, .none)
  else some (onReply (.reconcile .ended) (.reconcile (.applying todo)) (.save found) m.reply)

def reconcileTurn (c : Config) (s : State) (pc : ReconcilePc) (m : Meets) : Option (Call × Change) :=
  let ended : Call := .reconcile .ended
  match pc with
  | .start =>
    let found := (c.vendored.filter fun manifest => manifest.id ∉ m.missed).map fun manifest => (manifest, TrustLevel.VENDORED)
    some (onReply ended (.reconcile (.reading (m.names.filter fun name => (s.disk name).there) found)) .none m.reply)
  | .reading [] found => some (onReply ended (.reconcile (.asserting found found)) .none m.reply)
  | .reading (name :: names) found => some (onReply ended (.reconcile (.reading names (loadOne c s name found))) .none m.reply)
  | .asserting found [] => some (onReply ended (.reconcile (.existing found)) .none m.reply)
  | .asserting found (f :: todo) =>
    if f.2 = .INSTALLED ∧ (s.disk f.1.id).bundle = .absent then some (ended, .none)
    else some (onReply ended (.reconcile (.asserting found todo)) .none m.reply)
  | .existing found => some (onReply ended (.reconcile (.applying (found.map fun f => (f, (s.rows f.1.id).isSome)))) .none m.reply)
  | .applying [] => some (ended, .none)
  | .applying ((found, existing) :: todo) => applyTurn s found existing todo m
  | .ended => none

def callTurn (c : Config) (s : State) (m : Meets) : Call → Option (Call × Change)
  | .upload u pc => uploadTurn s u pc m
  | .removal id pc => removalTurn s id pc m
  | .reconcile pc => reconcileTurn c s pc m

def next (c : Config) (s : State) : Action → Option State
  | .uploadCapability u => some { s with calls := s.calls ++ [.upload u .check] }
  | .removeCapability id => some { s with calls := s.calls ++ [.removal id .start] }
  | .reconcileNow => some { s with calls := s.calls ++ [.reconcile .start] }
  | .turn i m => do
    let call ← s.calls[i]?
    let (call', change) ← callTurn c s m call
    return { s.change change with calls := s.calls.set i call' }
  | .setCapabilityEnabled id isEnabled => do
    let row ← s.rows id
    if s.locked id then none else some { s with rows := Function.update s.rows id (some { row with isEnabled }) }
  | .execute id => do
    let _ ← s.rows id
    if s.locked id then none else some { s with executions := Function.update s.executions id (s.executions id + 1) }

def step (c : Config) (s : State) (a : Action) (s' : State) : Prop := next c s a = some s'

/-! ### What is wanted, and when it is had -/

def Call.isEnded : Call → Bool
  | .upload _ pc => pc == .ended
  | .removal _ (.ended _ _) => true
  | .removal _ _ => false
  | .reconcile pc => pc == .ended

/-- Nothing is under way. -/
def State.Quiescent (s : State) : Prop := ∀ call ∈ s.calls, call.isEnded = true

/-- The bundle and the manifest of one upload that passed. -/
def Complete (s : State) (id : ℕ) : Prop :=
  ∃ u ∈ s.passed, u.capabilityId = id ∧ (s.disk id).bundle = .whole u.bundle ∧ (s.disk id).manifest = .whole u.manifest

/-- Installed capabilities are intact, and what was removed stays so. -/
structure Sound (c : Config) (s : State) : Prop where
  intact : s.Quiescent → ∀ id row, s.rows id = some row → row.trust = .INSTALLED → Complete s id
  gone : ∀ id, s.removed id = true → s.rows id = none
  /-- A refused or failed removal has deleted neither a file nor the row. -/
  untouched : ∀ id outcome erased, .removal id (.ended outcome erased) ∈ s.calls → outcome ≠ .removed → erased = false
  /-- No step of a reconciliation changes `isEnabled`. -/
  enabled : ∀ i pc m s', s.calls[i]? = some (.reconcile pc) → next c s (.turn i m) = some s' →
    ∀ id row, s.rows id = some row → ∃ row', s'.rows id = some row' ∧ row'.isEnabled = row.isEnabled

/-- Nobody is at work on the directory. -/
def State.idle (s : State) (id : ℕ) : Bool := s.calls.all fun call => !call.busy id

/-- No reconciliation is still to apply what it has discovered of the capability. -/
def State.unclaimed (s : State) (id : ℕ) : Bool := s.calls.all fun call => call.pending.all fun found => found.1.id != id

/-- Files are written and deleted by one call at a time for each capability; a call that has started to does not fail; and a
removal commits when the capability's files are gone, none is vendored under its id, and no reconciliation is still to
apply what it has discovered of it. -/
def orderly (c : Config) (s : State) : Action → Bool
  | .turn i m =>
    match s.calls[i]? with
    | some (.upload u pc) =>
      match pc with
      | .openBundle => m.reply = .unreached || (m.reply = .answered && s.idle u.capabilityId)
      | .writeBundle | .openManifest | .writeManifest => m.reply = .answered
      | _ => true
    | some (.removal id pc) =>
      match pc with
      | .erasing true => m.reply = .answered
      | .erasing false => m.reply = .unreached || (m.reply = .answered && s.idle id)
      | .deleting erased =>
        (m.reply = .unreached && !erased) ||
          (m.reply = .answered && (s.disk id).cleared && (c.vendored.all fun manifest => manifest.id != id) && s.unclaimed id)
      | _ => true
    | _ => true
  | _ => true

/-! ### Between two steps -/

section Steps

variable {c : Config} {s s' : State} {a : Action} {i : ℕ} {call call' : Call} {id : ℕ} {m : Meets} {u : Upload}

/-- What a call has made sure of. -/
def Sure (c : Config) (s : State) : Call → Prop
  | .upload u pc =>
    match pc with
    | .mkdir | .openBundle => u ∈ s.passed
    | .writeBundle => u ∈ s.passed ∧ (s.disk u.capabilityId).bundle = .torn
    | .openManifest => u ∈ s.passed ∧ (s.disk u.capabilityId).bundle = .whole u.bundle
    | .writeManifest => u ∈ s.passed ∧ (s.disk u.capabilityId).bundle = .whole u.bundle ∧ (s.disk u.capabilityId).manifest = .torn
    | .check | .ended => True
  | .removal id pc =>
    match pc with
    | .recount _ | .erasing _ => (s.rows id).isSome
    | .deleting erased => (s.rows id).isSome ∧ (erased = true → (s.disk id).cleared = true)
    | .ended outcome erased => outcome ≠ .removed → erased = false
    | .start | .locking _ => True
  | .reconcile pc => ∀ found ∈ pc.pending,
    (found.2 = .INSTALLED → Complete s found.1.id ∨ s.idle found.1.id = false) ∧ (found.2 = .VENDORED → found.1 ∈ c.vendored)

structure Kept (c : Config) (s : State) : Prop where
  busy : ∀ (i j : ℕ) (a b : Call) (id : ℕ), s.calls[i]? = some a → s.calls[j]? = some b → a.busy id = true → b.busy id = true → i = j
  locks : ∀ (i j : ℕ) (a b : Call) (id : ℕ), s.calls[i]? = some a → s.calls[j]? = some b → a.locks id = true → b.locks id = true → i = j
  sure : ∀ call ∈ s.calls, Sure c s call
  files : ∀ id, (s.disk id).there = false → (s.disk id).cleared = true
  settled : ∀ id, s.idle id = true → (s.disk id).cleared = true ∨ Complete s id
  rows : ∀ id row, s.rows id = some row → row.trust = .INSTALLED → Complete s id ∨ s.idle id = false
  gone : ∀ id, s.removed id = true → s.rows id = none ∧ (s.disk id).cleared = true ∧ s.unclaimed id = true ∧
    ∀ manifest ∈ c.vendored, manifest.id ≠ id

theorem idle_iff : s.idle id = true ↔ ∀ call ∈ s.calls, call.busy id = false := by
  unfold State.idle
  rw [List.all_eq_true]
  exact forall₂_congr fun call _ => by simp

theorem not_idle_of_mem (h : call ∈ s.calls) (hbusy : call.busy id = true) : s.idle id = false := by
  refine Bool.eq_false_iff.mpr fun hidle => ?_
  cases (idle_iff.mp hidle call h).symm.trans hbusy

/-- Who is at work on a directory is so after a step of a call that is as busy as it was. -/
theorem idle_set (hi : s.calls[i]? = some call) (hbusy : call'.busy id = call.busy id) :
    State.idle { s with calls := s.calls.set i call' } id = s.idle id := by
  refine Bool.eq_iff_iff.mpr ?_
  rw [idle_iff, idle_iff]
  constructor
  · intro h v hv
    obtain ⟨j, hj⟩ := List.getElem?_of_mem hv
    by_cases hij : j = i
    · subst hij
      cases hi.symm.trans hj
      rw [← hbusy]
      exact h call' (List.mem_of_getElem? (List.getElem?_set_self (List.getElem?_eq_some_iff.mp hi).1))
    · exact h v (List.mem_of_getElem? ((List.getElem?_set_ne fun heq => hij heq.symm).trans hj))
  · intro h v hv
    rcases List.mem_or_eq_of_mem_set hv with hv | rfl
    · exact h v hv
    · rw [hbusy]
      exact h call (List.mem_of_getElem? hi)

theorem complete_congr (hdisk : s'.disk id = s.disk id) (hpassed : s.passed ⊆ s'.passed) (h : Complete s id) : Complete s' id := by
  obtain ⟨u, hu, hid, hbundle, hmanifest⟩ := h
  exact ⟨u, hpassed hu, hid, by rw [hdisk, hbundle], by rw [hdisk, hmanifest]⟩

theorem not_complete_of_cleared (h : (s.disk id).cleared = true) : ¬ Complete s id := by
  rintro ⟨u, -, -, hbundle, -⟩
  unfold Dir.cleared at h
  rw [hbundle] at h
  simp at h

theorem idle_set_of (hcalls : s'.calls = s.calls.set i call') (hi : s.calls[i]? = some call) (hbusy : call'.busy id = call.busy id) :
    s'.idle id = s.idle id := by
  unfold State.idle
  rw [hcalls]
  exact idle_set hi hbusy

theorem unclaimed_iff : s.unclaimed id = true ↔ ∀ call ∈ s.calls, ∀ found ∈ call.pending, found.1.id ≠ id := by
  unfold State.unclaimed
  rw [List.all_eq_true]
  refine forall₂_congr fun call _ => ?_
  rw [List.all_eq_true]
  exact forall₂_congr fun found _ => by simp

theorem unclaimed_set (h : s.unclaimed id = true) (hcalls : s'.calls = s.calls.set i call')
    (hpending : ∀ found ∈ call'.pending, found.1.id ≠ id) : s'.unclaimed id = true := by
  rw [unclaimed_iff, hcalls]
  intro v hv
  rcases List.mem_or_eq_of_mem_set hv with hv | rfl
  · exact unclaimed_iff.mp h v hv
  · exact hpending

/-- What a call has made sure of stays so, unless files it is at work on, a row it holds or a discovery change. -/
theorem Sure.mono (h : Sure c s call) (hpassed : s.passed ⊆ s'.passed)
    (hfiles : ∀ id, call.busy id = true → (s'.disk id).bundle = (s.disk id).bundle ∧ (s'.disk id).manifest = (s.disk id).manifest)
    (hrows : ∀ id, call.locks id = true → (s.rows id).isSome → (s'.rows id).isSome)
    (hheld : ∀ found ∈ call.pending, Complete s found.1.id ∨ s.idle found.1.id = false →
      Complete s' found.1.id ∨ s'.idle found.1.id = false) : Sure c s' call := by
  cases call with
  | upload u pc =>
    cases pc with
    | check => trivial
    | ended => trivial
    | mkdir => exact hpassed h
    | openBundle => exact hpassed h
    | writeBundle =>
      obtain ⟨hbundle, -⟩ := hfiles u.capabilityId (by simp [Call.busy])
      exact ⟨hpassed h.1, hbundle.trans h.2⟩
    | openManifest =>
      obtain ⟨hbundle, -⟩ := hfiles u.capabilityId (by simp [Call.busy])
      exact ⟨hpassed h.1, hbundle.trans h.2⟩
    | writeManifest =>
      obtain ⟨hbundle, hmanifest⟩ := hfiles u.capabilityId (by simp [Call.busy])
      exact ⟨hpassed h.1, hbundle.trans h.2.1, hmanifest.trans h.2.2⟩
  | removal id pc =>
    cases pc with
    | start => trivial
    | locking => trivial
    | recount => exact hrows id (by simp [Call.locks]) h
    | erasing => exact hrows id (by simp [Call.locks]) h
    | deleting erased =>
      refine ⟨hrows id (by simp [Call.locks]) h.1, fun herased => ?_⟩
      obtain ⟨hbundle, hmanifest⟩ := hfiles id (by simp [Call.busy, herased])
      unfold Dir.cleared
      rw [hbundle, hmanifest]
      exact h.2 herased
    | ended => exact h
  | reconcile pc => exact fun found hfound => ⟨fun htrust => hheld found hfound ((h found hfound).1 htrust), (h found hfound).2⟩

/-- What is asked of one capability. -/
structure At (c : Config) (s : State) (id : ℕ) : Prop where
  files : (s.disk id).there = false → (s.disk id).cleared = true
  settled : s.idle id = true → (s.disk id).cleared = true ∨ Complete s id
  rows : ∀ row, s.rows id = some row → row.trust = .INSTALLED → Complete s id ∨ s.idle id = false
  gone : s.removed id = true → s.rows id = none ∧ (s.disk id).cleared = true ∧ s.unclaimed id = true ∧
    ∀ manifest ∈ c.vendored, manifest.id ≠ id

theorem Kept.at (h : Kept c s) (id : ℕ) : At c s id := ⟨h.files id, h.settled id, h.rows id, h.gone id⟩

/-- **The step of a call**, which changes one capability at most: what it must make sure of there. -/
theorem Kept.turn (h : Kept c s) (hi : s.calls[i]? = some call) (hcalls : s'.calls = s.calls.set i call')
    (hpassed : s.passed ⊆ s'.passed) (id₀ : ℕ)
    (hframe : ∀ id, id ≠ id₀ → s'.disk id = s.disk id ∧ s'.rows id = s.rows id ∧ s'.removed id = s.removed id ∧
      call'.busy id = call.busy id ∧ (call'.locks id = true → call.locks id = true))
    (hbusy : call'.busy id₀ = true → call.busy id₀ = true ∨ s.idle id₀ = true)
    (hlocks : call'.locks id₀ = true → call.locks id₀ = true ∨ s.locked id₀ = false)
    (hpending : ∀ found ∈ call'.pending, found ∈ call.pending ∨ s'.removed found.1.id = false)
    (hsure : Sure c s' call')
    (hfiles : ((s'.disk id₀).bundle = (s.disk id₀).bundle ∧ (s'.disk id₀).manifest = (s.disk id₀).manifest) ∨
      call.busy id₀ = true ∨ s.idle id₀ = true)
    (hrows : ((s.rows id₀).isSome → (s'.rows id₀).isSome) ∨ call.locks id₀ = true)
    (hheld : Complete s id₀ ∨ s.idle id₀ = false → Complete s' id₀ ∨ s'.idle id₀ = false ∨ s.unclaimed id₀ = true)
    (hat : At c s' id₀) : Kept c s' := by
  have hidle (id : ℕ) (hne : id ≠ id₀) : s'.idle id = s.idle id := idle_set_of hcalls hi (hframe id hne).2.2.2.1
  have hcomplete (id : ℕ) (hne : id ≠ id₀) : Complete s id → Complete s' id := complete_congr (hframe id hne).1 hpassed
  have hheldAll (id : ℕ) (hclaimed : s.unclaimed id = false) (hid : Complete s id ∨ s.idle id = false) :
      Complete s' id ∨ s'.idle id = false := by
    by_cases hne : id = id₀
    · subst hne
      rcases hheld hid with hc | hb | hu
      · exact .inl hc
      · exact .inr hb
      · cases hclaimed.symm.trans hu
    · rw [hidle id hne]
      exact hid.imp_left (hcomplete id hne)
  -- no two calls are at work on one directory, and none gets at the lock of another
  refine ⟨fun j k a b id ha hb hja hjb => ?_, fun j k a b id ha hb hja hjb => ?_, fun v hv => ?_, fun id => ?_, fun id => ?_,
    fun id => ?_, fun id => ?_⟩
  · rw [hcalls] at ha hb
    have hother (l : ℕ) (v : Call) (hl : l ≠ i) (hv : s.calls[l]? = some v) (hvbusy : v.busy id = true)
        (hbusy' : call'.busy id = true) : False := by
      by_cases hne : id = id₀
      · subst hne
        rcases hbusy hbusy' with hwas | hidle₀
        · exact hl (h.busy l i v call id hv hi hvbusy hwas)
        · cases (idle_iff.mp hidle₀ v (List.mem_of_getElem? hv)).symm.trans hvbusy
      · rw [(hframe id hne).2.2.2.1] at hbusy'
        exact hl (h.busy l i v call id hv hi hvbusy hbusy')
    rcases getElem?_set_split ha with ⟨hj, rfl⟩ | ⟨hj, ha⟩
    · rcases getElem?_set_split hb with ⟨hk, -⟩ | ⟨hk, hb⟩
      · exact hj.trans hk.symm
      · exact (hother k b hk hb hjb hja).elim
    · rcases getElem?_set_split hb with ⟨-, heq⟩ | ⟨-, hb⟩
      · rw [heq] at hjb
        exact (hother j a hj ha hja hjb).elim
      · exact h.busy j k a b id ha hb hja hjb
  · rw [hcalls] at ha hb
    have hother (l : ℕ) (v : Call) (hl : l ≠ i) (hv : s.calls[l]? = some v) (hvlocks : v.locks id = true)
        (hlocks' : call'.locks id = true) : False := by
      by_cases hne : id = id₀
      · subst hne
        rcases hlocks hlocks' with hwas | hfree
        · exact hl (h.locks l i v call id hv hi hvlocks hwas)
        · unfold State.locked at hfree
          exact List.any_eq_false.mp hfree v (List.mem_of_getElem? hv) hvlocks
      · exact hl (h.locks l i v call id hv hi hvlocks ((hframe id hne).2.2.2.2 hlocks'))
    rcases getElem?_set_split ha with ⟨hj, rfl⟩ | ⟨hj, ha⟩
    · rcases getElem?_set_split hb with ⟨hk, -⟩ | ⟨hk, hb⟩
      · exact hj.trans hk.symm
      · exact (hother k b hk hb hjb hja).elim
    · rcases getElem?_set_split hb with ⟨-, heq⟩ | ⟨-, hb⟩
      · rw [heq] at hjb
        exact (hother j a hj ha hja hjb).elim
      · exact h.locks j k a b id ha hb hja hjb
  · rw [hcalls] at hv
    obtain ⟨j, hj⟩ := List.getElem?_of_mem hv
    rcases getElem?_set_split hj with ⟨-, rfl⟩ | ⟨hne, hj⟩
    · exact hsure
    have hmem := List.mem_of_getElem? hj
    refine (h.sure v hmem).mono hpassed (fun id hvbusy => ?_) (fun id hvlocks hsome => ?_) fun found hfound hid => ?_
    · by_cases hid : id = id₀
      · subst hid
        rcases hfiles with hsame | hwas | hidle₀
        · exact hsame
        · exact (hne (h.busy j i v call id hj hi hvbusy hwas)).elim
        · cases (idle_iff.mp hidle₀ v hmem).symm.trans hvbusy
      · rw [(hframe id hid).1]
        exact ⟨rfl, rfl⟩
    · by_cases hid : id = id₀
      · subst hid
        rcases hrows with hkept | hwas
        · exact hkept hsome
        · exact (hne (h.locks j i v call id hj hi hvlocks hwas)).elim
      · rw [(hframe id hid).2.1]
        exact hsome
    · refine hheldAll found.1.id (Bool.eq_false_iff.mpr fun hun => ?_) hid
      exact unclaimed_iff.mp hun v hmem found hfound rfl
  · by_cases hid : id = id₀
    · subst hid
      exact hat.files
    · rw [(hframe id hid).1]
      exact h.files id
  · by_cases hid : id = id₀
    · subst hid
      exact hat.settled
    · rw [hidle id hid, (hframe id hid).1]
      exact fun hidle => (h.settled id hidle).imp_right (hcomplete id hid)
  · by_cases hid : id = id₀
    · subst hid
      exact hat.rows
    · rw [hidle id hid, (hframe id hid).2.1]
      exact fun row hrow htrust => (h.rows id row hrow htrust).imp_left (hcomplete id hid)
  · by_cases hid : id = id₀
    · subst hid
      exact hat.gone
    · rw [(hframe id hid).1, (hframe id hid).2.1]
      intro hremoved
      have hremoved' : s.removed id = true := (hframe id hid).2.2.1 ▸ hremoved
      obtain ⟨hrow, hcleared, hun, hvendored⟩ := h.gone id hremoved'
      refine ⟨hrow, hcleared, unclaimed_set hun hcalls fun found hfound heq => ?_, hvendored⟩
      rcases hpending found hfound with hwas | hnot
      · exact unclaimed_iff.mp hun call (List.mem_of_getElem? hi) found hwas heq
      · rw [heq, hremoved] at hnot
        cases hnot

theorem At.congr (h : At c s id) (hdisk : s'.disk id = s.disk id) (hrows : s'.rows id = s.rows id) (hremoved : s'.removed id = s.removed id)
    (hidle : s'.idle id = s.idle id) (hpassed : s.passed ⊆ s'.passed)
    (hunclaimed : s.removed id = true → s.unclaimed id = true → s'.unclaimed id = true) : At c s' id := by
  refine ⟨by rw [hdisk]; exact h.files, ?_, ?_, ?_⟩
  · rw [hidle, hdisk]
    exact fun hid => (h.settled hid).imp_right (complete_congr hdisk hpassed)
  · rw [hidle, hrows]
    exact fun row hrow htrust => (h.rows row hrow htrust).imp_left (complete_congr hdisk hpassed)
  · rw [hremoved, hrows, hdisk]
    intro hr
    obtain ⟨hrow, hcleared, hun, hvendored⟩ := h.gone hr
    exact ⟨hrow, hcleared, hunclaimed hr hun, hvendored⟩

/-- A step that changes neither files nor rows, and leaves its call as busy as it was. -/
theorem Kept.goOn (h : Kept c s) (hi : s.calls[i]? = some call) (hcalls : s'.calls = s.calls.set i call')
    (hpassed : s.passed ⊆ s'.passed) (hdisk : s'.disk = s.disk) (hrows : s'.rows = s.rows) (hremoved : s'.removed = s.removed)
    (hbusy : ∀ id, call'.busy id = call.busy id) (id₀ : ℕ)
    (hlocks : ∀ id, call'.locks id = true → call.locks id = true ∨ (id = id₀ ∧ s.locked id₀ = false))
    (hpending : ∀ found ∈ call'.pending, found ∈ call.pending ∨ s.removed found.1.id = false) (hsure : Sure c s' call') : Kept c s' := by
  have hidle (id : ℕ) : s'.idle id = s.idle id := idle_set_of hcalls hi (hbusy id)
  refine h.turn hi hcalls hpassed id₀ (fun id hne => ⟨by rw [hdisk], by rw [hrows], by rw [hremoved], hbusy id, fun hl => ?_⟩)
    (fun hb => .inl ((hbusy id₀).symm.trans hb)) (fun hl => ?_) (by rw [hremoved]; exact hpending) hsure (.inl (by rw [hdisk]; exact ⟨rfl, rfl⟩))
    (.inl (by rw [hrows]; exact fun hsome => hsome)) (fun hid => ?_) ?_
  · exact (hlocks id hl).elim (fun hwas => hwas) fun hnew => absurd hnew.1 hne
  · exact (hlocks id₀ hl).imp_right And.right
  · rw [hidle]
    exact hid.elim (fun hc => .inl (complete_congr (by rw [hdisk]) hpassed hc)) fun hb => .inr (.inl hb)
  · refine (h.at id₀).congr (by rw [hdisk]) (by rw [hrows]) (by rw [hremoved]) (hidle id₀) hpassed fun hr hun => ?_
    refine unclaimed_set hun hcalls fun found hfound heq => ?_
    rcases hpending found hfound with hwas | hnot
    · exact unclaimed_iff.mp hun call (List.mem_of_getElem? hi) found hwas heq
    · rw [heq, hr] at hnot
      cases hnot

theorem setDir_same (dir : Dir) : (s.setDir id dir).disk id = dir := Function.update_self ..

theorem setDir_ne {id' : ℕ} (dir : Dir) (h : id' ≠ id) : (s.setDir id dir).disk id' = s.disk id' := Function.update_of_ne h ..

/-- A step of a call that is at work on a directory, alone: it stays at work. -/
theorem Kept.work (h : Kept c s) (hi : s.calls[i]? = some call) (hcalls : s'.calls = s.calls.set i call') (id₀ : ℕ)
    (hpassed : s.passed = s'.passed) (hdisk : ∀ id, id ≠ id₀ → s'.disk id = s.disk id)
    (hrows : s'.rows = s.rows) (hremoved : ∀ id, id ≠ id₀ → s'.removed id = s.removed id) (hnot : s'.removed id₀ = false)
    (hthere : (s'.disk id₀).there = false → (s'.disk id₀).cleared = true)
    (hbusy : ∀ id, id ≠ id₀ → call'.busy id = call.busy id) (hbusy₀ : call'.busy id₀ = true)
    (halone : call.busy id₀ = true ∨ s.idle id₀ = true) (hlocks : ∀ id, call'.locks id = true → call.locks id = true)
    (hpending : call'.pending = []) (hsure : Sure c s' call') : Kept c s' := by
  have hwork : s'.idle id₀ = false := by
    have hmem : call' ∈ s'.calls := by
      rw [hcalls]
      exact List.mem_of_getElem? (List.getElem?_set_self (List.getElem?_eq_some_iff.mp hi).1)
    exact not_idle_of_mem hmem hbusy₀
  refine h.turn hi hcalls (by rw [hpassed]; exact List.Subset.refl _) id₀
    (fun id hne => ⟨hdisk id hne, by rw [hrows], hremoved id hne, hbusy id hne, hlocks id⟩) (fun _ => halone)
    (fun hl => .inl (hlocks id₀ hl)) (by rw [hpending]; exact fun _ hf => (List.not_mem_nil hf).elim) hsure (.inr halone)
    (.inl (by rw [hrows]; exact fun hsome => hsome)) (fun _ => .inr (.inl hwork)) ⟨hthere, fun hid => ?_, fun _ _ _ => .inr hwork, fun hr => ?_⟩
  · cases hwork.symm.trans hid
  · cases hnot.symm.trans hr

/-- A directory that is made, or removed when it is empty: no file changes. -/
theorem Kept.setThere (h : Kept c s) (id₀ : ℕ) (there : Bool) (hempty : there = false → (s.disk id₀).cleared = true) :
    Kept c (s.setDir id₀ { s.disk id₀ with there }) := by
  have hsame (id : ℕ) : ((s.setDir id₀ { s.disk id₀ with there }).disk id).bundle = (s.disk id).bundle ∧
      ((s.setDir id₀ { s.disk id₀ with there }).disk id).manifest = (s.disk id).manifest := by
    by_cases hid : id = id₀
    · subst hid
      rw [setDir_same]
      exact ⟨rfl, rfl⟩
    · rw [setDir_ne _ hid]
      exact ⟨rfl, rfl⟩
  have hcleared (id : ℕ) : ((s.setDir id₀ { s.disk id₀ with there }).disk id).cleared = (s.disk id).cleared := by
    unfold Dir.cleared
    rw [(hsame id).1, (hsame id).2]
  have hcomplete (id : ℕ) (hc : Complete s id) : Complete (s.setDir id₀ { s.disk id₀ with there }) id := by
    obtain ⟨u, hu, hid, hbundle, hmanifest⟩ := hc
    exact ⟨u, hu, hid, (hsame id).1.trans hbundle, (hsame id).2.trans hmanifest⟩
  refine ⟨h.busy, h.locks, fun call hcall => ?_, fun id hthere => ?_, fun id hidle => ?_, fun id row hrow htrust => ?_, fun id hr => ?_⟩
  · exact (h.sure call hcall).mono (List.Subset.refl _) (fun id _ => hsame id) (fun _ _ hsome => hsome)
      fun found _ hheld => hheld.imp_left (hcomplete found.1.id)
  · rw [hcleared]
    by_cases hid : id = id₀
    · subst hid
      rw [setDir_same] at hthere
      exact hempty hthere
    · rw [setDir_ne _ hid] at hthere
      exact h.files id hthere
  · rw [hcleared]
    exact (h.settled id hidle).imp_right (hcomplete id)
  · exact (h.rows id row hrow htrust).imp_left (hcomplete id)
  · rw [hcleared]
    exact h.gone id hr

/-- A call ends without having changed anything. -/
theorem Kept.quit (h : Kept c s) (hi : s.calls[i]? = some call) (hbusy : ∀ id, call.busy id = false) (hbusy' : ∀ id, call'.busy id = false)
    (hlocks : ∀ id, call'.locks id = false) (hpending : call'.pending = []) (hsure : Sure c s call') :
    Kept c { s with calls := s.calls.set i call' } := by
  refine h.goOn hi rfl (List.Subset.refl _) rfl rfl rfl (fun id => (hbusy' id).trans (hbusy id).symm) 0
    (fun id hl => absurd ((hlocks id).symm.trans hl) (by simp)) (by rw [hpending]; exact fun _ hf => (List.not_mem_nil hf).elim) ?_
  exact hsure.mono (List.Subset.refl _) (fun _ _ => ⟨rfl, rfl⟩) (fun _ _ hsome => hsome)
    (by rw [hpending]; exact fun _ hf => (List.not_mem_nil hf).elim)

theorem onReply_cases {α : Type} {ended next pc : α} {made change : Change} {reply : Reply} (h : onReply ended next made reply = (pc, change)) :
    (reply = .answered ∧ pc = next ∧ change = made) ∨ (reply = .lost ∧ pc = ended ∧ change = made) ∨
      (reply = .unreached ∧ pc = ended ∧ change = .none) := by
  cases reply with
  | answered =>
    cases h
    exact .inl ⟨rfl, rfl, rfl⟩
  | lost =>
    cases h
    exact .inr (.inl ⟨rfl, rfl, rfl⟩)
  | unreached =>
    cases h
    exact .inr (.inr ⟨rfl, rfl, rfl⟩)

/-- A directory with a file is there. -/
theorem Kept.there (h : Kept c s) (hnot : (s.disk id).cleared = false) : (s.disk id).there = true := by
  refine Bool.not_eq_false _ |>.mp fun hthere => ?_
  cases hnot.symm.trans (h.files id hthere)

theorem Kept.not_removed (h : Kept c s) (hnot : (s.disk id).cleared = false) : s.removed id = false := by
  refine Bool.eq_false_iff.mpr fun hr => ?_
  cases hnot.symm.trans (h.gone id hr).2.1

end Steps

/-! ### Uploads -/

section Uploads

variable {c : Config} {s : State} {i : ℕ} {u : Upload} {pc : UploadPc} {m : Meets} {call' : Call} {change : Change}

theorem upload_ended_sure : Sure c s (.upload u .ended) := trivial

/-- **The step of an upload.** -/
theorem Kept.upload (h : Kept c s) (hi : s.calls[i]? = some (.upload u pc)) (hturn : uploadTurn s u pc m = some (call', change))
    (horderly : orderly c s (.turn i m) = true) : Kept c { s.change change with calls := s.calls.set i call' } := by
  have hmem := h.sure _ (List.mem_of_getElem? hi)
  unfold orderly at horderly
  dsimp only at horderly
  rw [hi] at horderly
  cases pc with
  | check =>
    have hquiet (id : ℕ) : (Call.upload u .check).busy id = false := by simp [Call.busy]
    unfold uploadTurn at hturn
    dsimp only at hturn
    split at hturn
    · cases hturn
      refine h.goOn hi rfl (List.subset_append_left _ _) rfl rfl rfl (fun id => by rw [hquiet]; simp [Call.busy]) 0 (fun id hl => nomatch hl)
        (fun _ hf => (List.not_mem_nil hf).elim) ?_
      exact List.mem_append_right _ List.mem_cons_self
    · cases hturn
      exact h.quit hi hquiet (fun id => by simp [Call.busy]) (fun _ => rfl) rfl upload_ended_sure
  | mkdir =>
    have hquiet (id : ℕ) : (Call.upload u .mkdir).busy id = false := by simp [Call.busy]
    have hmade := h.setThere u.capabilityId true nofun
    obtain ⟨-, rfl, rfl⟩ | ⟨-, rfl, rfl⟩ | ⟨-, rfl, rfl⟩ := onReply_cases (Option.some.inj hturn)
    · exact hmade.quit hi hquiet (fun id => by simp [Call.busy]) (fun _ => rfl) rfl hmem
    · exact hmade.quit hi hquiet (fun id => by simp [Call.busy]) (fun _ => rfl) rfl upload_ended_sure
    · exact h.quit hi hquiet (fun id => by simp [Call.busy]) (fun _ => rfl) rfl upload_ended_sure
  | openBundle =>
    have hquiet (id : ℕ) : (Call.upload u .openBundle).busy id = false := by simp [Call.busy]
    unfold uploadTurn at hturn
    dsimp only at hturn
    split at hturn
    · rename_i hthere
      obtain ⟨hreply, rfl, rfl⟩ | ⟨hreply, rfl, rfl⟩ | ⟨hreply, rfl, rfl⟩ := onReply_cases (Option.some.inj hturn)
      · have hidle : s.idle u.capabilityId = true := by simpa [hreply] using horderly
        refine h.work hi rfl u.capabilityId rfl (fun id hne => setDir_ne _ hne) rfl (fun id hne => Function.update_of_ne hne ..)
          (Function.update_self ..) (fun hnot => ?_) (fun id hne => ?_) (by simp [Call.busy]) (.inr hidle) (fun id hl => nomatch hl) rfl
          ⟨hmem, by rw [show (State.change s (.openBundle u.capabilityId)).disk u.capabilityId =
            { s.disk u.capabilityId with bundle := .torn } from setDir_same _]⟩
        · rw [show (State.change s (.openBundle u.capabilityId)).disk u.capabilityId =
            { s.disk u.capabilityId with bundle := .torn } from setDir_same _] at hnot
          cases hnot.symm.trans hthere
        · simp [Call.busy, hne.symm]
      · simp [hreply] at horderly
      · exact h.quit hi hquiet (fun id => by simp [Call.busy]) (fun _ => rfl) rfl upload_ended_sure
    · cases hturn
      exact h.quit hi hquiet (fun id => by simp [Call.busy]) (fun _ => rfl) rfl upload_ended_sure
  | writeBundle =>
    have hbusy : (Call.upload u .writeBundle).busy u.capabilityId = true := by simp [Call.busy]
    have hnot : (s.disk u.capabilityId).cleared = false := by simp [Dir.cleared, hmem.2]
    have hchange : s.change (.writeBundle u) = s.setDir u.capabilityId { s.disk u.capabilityId with bundle := .whole u.bundle } :=
      if_neg (by rw [hmem.2]; exact nofun)
    obtain ⟨-, rfl, rfl⟩ | ⟨hreply, rfl, rfl⟩ | ⟨hreply, rfl, rfl⟩ := onReply_cases (Option.some.inj hturn)
    · rw [hchange]
      have hdir := @setDir_same s u.capabilityId { s.disk u.capabilityId with bundle := .whole u.bundle }
      refine h.work hi rfl u.capabilityId rfl (fun id hne => setDir_ne _ hne) rfl (fun _ _ => rfl) (h.not_removed hnot)
        (fun hthere => ?_) (fun id hne => ?_) (by simp [Call.busy]) (.inl hbusy) (fun id hl => nomatch hl) rfl ⟨hmem.1, ?_⟩
      · rw [show (_ : State).disk u.capabilityId = _ from hdir] at hthere
        cases hthere.symm.trans (h.there hnot)
      · simp [Call.busy]
      · exact congrArg Dir.bundle hdir
    · simp [hreply] at horderly
    · simp [hreply] at horderly
  | openManifest =>
    have hbusy : (Call.upload u .openManifest).busy u.capabilityId = true := by simp [Call.busy]
    have hnot : (s.disk u.capabilityId).cleared = false := by simp [Dir.cleared, hmem.2]
    unfold uploadTurn at hturn
    dsimp only at hturn
    rw [if_pos (h.there hnot)] at hturn
    have hdir : (s.change (.openManifest u.capabilityId)).disk u.capabilityId = { s.disk u.capabilityId with manifest := .torn } :=
      setDir_same _
    obtain ⟨-, rfl, rfl⟩ | ⟨hreply, rfl, rfl⟩ | ⟨hreply, rfl, rfl⟩ := onReply_cases (Option.some.inj hturn)
    · refine h.work hi rfl u.capabilityId rfl (fun id hne => setDir_ne _ hne) rfl (fun _ _ => rfl) (h.not_removed hnot)
        (fun hthere => ?_) (fun id hne => ?_) (by simp [Call.busy]) (.inl hbusy) (fun id hl => nomatch hl) rfl ⟨hmem.1, ?_, ?_⟩
      · rw [show (_ : State).disk u.capabilityId = _ from hdir] at hthere
        cases hthere.symm.trans (h.there hnot)
      · simp [Call.busy]
      · exact (congrArg Dir.bundle hdir).trans hmem.2
      · exact congrArg Dir.manifest hdir
    · simp [hreply] at horderly
    · simp [hreply] at horderly
  | writeManifest =>
    have hbusy : (Call.upload u .writeManifest).busy u.capabilityId = true := by simp [Call.busy]
    have hnot : (s.disk u.capabilityId).cleared = false := by simp [Dir.cleared, hmem.2.1]
    have hchange : s.change (.writeManifest u) = s.setDir u.capabilityId { s.disk u.capabilityId with manifest := .whole u.manifest } :=
      if_neg (by rw [hmem.2.2]; exact nofun)
    obtain ⟨-, rfl, rfl⟩ | ⟨hreply, rfl, rfl⟩ | ⟨hreply, rfl, rfl⟩ := onReply_cases (Option.some.inj hturn)
    · rw [hchange]
      have hdir := @setDir_same s u.capabilityId { s.disk u.capabilityId with manifest := .whole u.manifest }
      have hcomplete : Complete { s.setDir u.capabilityId { s.disk u.capabilityId with manifest := .whole u.manifest } with
          calls := s.calls.set i (.reconcile .start) } u.capabilityId :=
        ⟨u, hmem.1, rfl, (congrArg Dir.bundle hdir).trans hmem.2.1, congrArg Dir.manifest hdir⟩
      refine h.turn hi rfl (List.Subset.refl _) u.capabilityId
        (fun id hne => ⟨setDir_ne _ hne, rfl, rfl, by simp [Call.busy, hne.symm], nofun⟩) nofun
        nofun (fun _ hf => (List.not_mem_nil hf).elim) (fun _ hf => (List.not_mem_nil hf).elim) (.inr (.inl hbusy))
        (.inl fun hsome => hsome) (fun _ => .inl hcomplete) ⟨fun hthere => ?_, fun _ => .inr hcomplete, fun _ _ _ => .inl hcomplete, fun hr => ?_⟩
      · rw [show (_ : State).disk u.capabilityId = _ from hdir] at hthere
        cases hthere.symm.trans (h.there hnot)
      · cases hr.symm.trans (h.not_removed hnot)
    · simp [hreply] at horderly
    · simp [hreply] at horderly
  | ended => cases hturn

end Uploads

/-! ### Removals -/

section Removals

variable {c : Config} {s : State} {i id : ℕ} {pc pc' : RemovalPc} {m : Meets} {call' : Call} {change : Change} {erased : Bool}

theorem Kept.not_removed_of_row (h : Kept c s) (hrow : (s.rows id).isSome) : s.removed id = false := by
  refine Bool.eq_false_iff.mpr fun hr => ?_
  rw [(h.gone id hr).1] at hrow
  cases hrow

/-- A removal that has touched nothing. -/
def RemovalPc.quiet : RemovalPc → Bool
  | .erasing erased | .deleting erased => !erased
  | _ => true

theorem busy_quiet (hquiet : pc.quiet = true) (id' : ℕ) : (Call.removal id pc).busy id' = false := by
  cases pc with
  | erasing erased =>
    cases erased with
    | true => cases hquiet
    | false => simp [Call.busy]
  | deleting erased =>
    cases erased with
    | true => cases hquiet
    | false => simp [Call.busy]
  | start => simp [Call.busy]
  | locking => simp [Call.busy]
  | recount => simp [Call.busy]
  | ended => simp [Call.busy]

/-- A removal goes on in the database. -/
theorem Kept.query (h : Kept c s) (hi : s.calls[i]? = some (.removal id pc)) (hquiet : pc.quiet = true) (hquiet' : pc'.quiet = true)
    (hlocks : (Call.removal id pc').locks id = true → (Call.removal id pc).locks id = true ∨ s.locked id = false)
    (hsure : Sure c s (.removal id pc')) : Kept c { s with calls := s.calls.set i (.removal id pc') } := by
  refine h.goOn hi rfl (List.Subset.refl _) rfl rfl rfl (fun id' => (busy_quiet hquiet' id').trans (busy_quiet hquiet id').symm) id
    (fun id' hl => ?_) (fun _ hf => (List.not_mem_nil hf).elim) ?_
  · have hsame : id' = id := by
      cases pc' with
      | recount => exact (beq_iff_eq.mp hl).symm
      | erasing => exact (beq_iff_eq.mp hl).symm
      | deleting => exact (beq_iff_eq.mp hl).symm
      | start => cases hl
      | locking => cases hl
      | ended => cases hl
    subst hsame
    exact (hlocks hl).imp_right fun hfree => ⟨rfl, hfree⟩
  · exact hsure.mono (List.Subset.refl _) (fun _ _ => ⟨rfl, rfl⟩) (fun _ _ hsome => hsome) fun _ hf => (List.not_mem_nil hf).elim

theorem Kept.rm (h : Kept c s) (hi : s.calls[i]? = some (.removal id (.erasing erased))) (hturn : rmTurn s id erased m = some (call', change))
    (horderly : orderly c s (.turn i m) = true) : Kept c { s.change change with calls := s.calls.set i call' } := by
  have hrow : (s.rows id).isSome := h.sure _ (List.mem_of_getElem? hi)
  have hanswers : (m.reply = .unreached ∧ erased = false) ∨ (m.reply = .answered ∧ (erased = true ∨ s.idle id = true)) := by
    unfold orderly at horderly
    dsimp only at horderly
    rw [hi] at horderly
    cases erased with
    | true => exact .inr ⟨by simpa using horderly, .inl rfl⟩
    | false =>
      simp only [Bool.or_eq_true, Bool.and_eq_true, decide_eq_true_eq] at horderly
      exact horderly.imp (fun hr => ⟨hr, rfl⟩) fun hr => ⟨hr.1, .inr hr.2⟩
  -- the call stays as busy as it is once the directory is gone
  have hdone (s₁ : State) (hkept : Kept c s₁) (hcalls : s₁.calls = s.calls) (hrows : s₁.rows = s.rows) (hcleared : (s₁.disk id).cleared = true) :
      Kept c { s₁ with calls := s.calls.set i (.removal id (.deleting erased)) } := by
    rw [← hcalls] at hi ⊢
    refine hkept.goOn hi rfl (List.Subset.refl _) rfl rfl rfl (fun id' => ?_) id (fun id' hl => .inl hl)
      (fun _ hf => (List.not_mem_nil hf).elim) ⟨by rw [hrows]; exact hrow, fun _ => hcleared⟩
    cases erased with
    | true => simp [Call.busy]
    | false => rw [busy_quiet rfl, busy_quiet rfl]
  unfold rmTurn at hturn
  dsimp only at hturn
  split at hturn
  · rename_i hthere
    cases hturn
    exact hdone s h rfl rfl (h.files id (by simpa using hthere))
  rename_i hthere
  replace hthere : (s.disk id).there = true := by simpa using hthere
  rcases hanswers with ⟨hreply, rfl⟩ | ⟨hreply, halone⟩
  · rw [hreply] at hturn
    cases hturn
    exact h.query hi rfl rfl nofun fun _ => rfl
  rw [hreply] at hturn
  have halone' : (Call.removal id (.erasing erased)).busy id = true ∨ s.idle id = true :=
    halone.imp_left fun he => by simp [Call.busy, he]
  have hwork (dir : Dir) (hdir : dir.there = true) :
      Kept c { s.setDir id dir with calls := s.calls.set i (.removal id (.erasing true)) } := by
    refine h.work hi rfl id rfl (fun id' hne => setDir_ne _ hne) rfl (fun _ _ => rfl) (h.not_removed_of_row hrow) (fun hno => ?_)
      (fun id' hne => by simp [Call.busy, hne.symm]) (by simp [Call.busy]) halone' (fun id' hl => hl) rfl hrow
    rw [show (_ : State).disk id = dir from setDir_same dir, hdir] at hno
    cases hno
  cases hentry : m.entry with
  | bundle =>
    rw [hentry] at hturn
    dsimp only at hturn
    split at hturn
    · cases hturn
    · cases hturn
      exact hwork _ hthere
  | manifest =>
    rw [hentry] at hturn
    dsimp only at hturn
    split at hturn
    · cases hturn
    · cases hturn
      exact hwork _ hthere
  | directory =>
    rw [hentry] at hturn
    dsimp only at hturn
    split at hturn
    · rename_i hcleared
      cases hturn
      refine hdone _ (h.setThere id false fun _ => hcleared) rfl rfl ?_
      change ((s.setDir id { s.disk id with there := false }).disk id).cleared = true
      rw [setDir_same]
      exact hcleared
    · cases hturn

/-- **The step of a removal.** -/
theorem Kept.removal (h : Kept c s) (hi : s.calls[i]? = some (.removal id pc)) (hturn : removalTurn s id pc m = some (call', change))
    (horderly : orderly c s (.turn i m) = true) : Kept c { s.change change with calls := s.calls.set i call' } := by
  have hmem := h.sure _ (List.mem_of_getElem? hi)
  cases pc with
  | start =>
    obtain ⟨-, rfl, rfl⟩ | ⟨-, rfl, rfl⟩ | ⟨-, rfl, rfl⟩ := onReply_cases (Option.some.inj hturn)
    · split
      · exact h.query hi rfl rfl nofun fun _ => rfl
      · split
        · exact h.query hi rfl rfl nofun fun _ => rfl
        · exact h.query hi rfl rfl nofun trivial
    · exact h.query hi rfl rfl nofun fun _ => rfl
    · exact h.query hi rfl rfl nofun fun _ => rfl
  | locking trust =>
    unfold removalTurn at hturn
    dsimp only at hturn
    split at hturn
    · cases hturn
    rename_i hwait
    obtain ⟨hreply, rfl, rfl⟩ | ⟨-, rfl, rfl⟩ | ⟨-, rfl, rfl⟩ := onReply_cases (Option.some.inj hturn)
    · have hfree : s.locked id = false := by simpa [hreply] using hwait
      split
      · rename_i hrow
        exact h.query hi rfl rfl (fun _ => .inr hfree) hrow
      · exact h.query hi rfl rfl nofun fun _ => rfl
    · exact h.query hi rfl rfl nofun fun _ => rfl
    · exact h.query hi rfl rfl nofun fun _ => rfl
  | recount trust =>
    obtain ⟨-, rfl, rfl⟩ | ⟨-, rfl, rfl⟩ | ⟨-, rfl, rfl⟩ := onReply_cases (Option.some.inj hturn)
    · split
      · exact h.query hi rfl rfl nofun fun _ => rfl
      split
      · exact h.query hi rfl rfl (fun hl => .inl hl) hmem
      · exact h.query hi rfl rfl (fun hl => .inl hl) ⟨hmem, nofun⟩
    · exact h.query hi rfl rfl nofun fun _ => rfl
    · exact h.query hi rfl rfl nofun fun _ => rfl
  | erasing erased => exact h.rm hi hturn horderly
  | deleting erased =>
    unfold orderly at horderly
    dsimp only at horderly
    rw [hi] at horderly
    simp only [Bool.or_eq_true, Bool.and_eq_true, decide_eq_true_eq, Bool.not_eq_true'] at horderly
    rcases horderly with ⟨hreply, rfl⟩ | ⟨⟨⟨hreply, hcleared⟩, hvendored⟩, hun⟩
    · unfold removalTurn at hturn
      rw [hreply] at hturn
      cases hturn
      exact h.query hi rfl rfl nofun fun _ => rfl
    · unfold removalTurn at hturn
      rw [hreply] at hturn
      cases hturn
      have hbusy : ∀ id', (Call.removal id (.ended .removed true)).busy id' = false := busy_quiet rfl
      refine h.turn hi rfl (List.Subset.refl _) id (fun id' hne => ⟨rfl, Function.update_of_ne hne .., Function.update_of_ne hne .., ?_,
        nofun⟩) (fun hb => absurd ((hbusy id).symm.trans hb) (by simp)) nofun
        (fun _ hf => (List.not_mem_nil hf).elim) (fun hne => absurd rfl hne) (.inl ⟨rfl, rfl⟩) (.inr (by simp [Call.locks]))
        (fun _ => .inr (.inr hun)) ⟨fun _ => hcleared, fun _ => .inl hcleared, fun row hrow => ?_, fun _ => ⟨Function.update_self .., hcleared, ?_, ?_⟩⟩
      · rw [hbusy]
        simp [Call.busy, hne.symm]
      · have hnone : (s.change (.deleteRow id true)).rows id = none := Function.update_self ..
        cases hnone.symm.trans hrow
      · exact unclaimed_set hun rfl fun _ hf => (List.not_mem_nil hf).elim
      · exact fun manifest hmanifest => by simpa using List.all_eq_true.mp hvendored manifest hmanifest
  | ended => cases hturn

end Removals

/-! ### Reconciliations -/

section Reconciliations

variable {c : Config} {s s' : State} {a : Action} {i name : ℕ} {pc pc' : ReconcilePc} {m : Meets} {call' : Call} {change : Change}
  {found : Found} {existing : Bool} {todo : List (Found × Bool)}

/-- What a discovery holds: what it held before, a vendored manifest, or one that is whole on the disk. -/
def Discovered (c : Config) (s : State) (before : List Found) (f : Found) : Prop :=
  f ∈ before ∨ (f.2 = .VENDORED ∧ f.1 ∈ c.vendored) ∨ (f.2 = .INSTALLED ∧ (s.disk f.1.id).manifest = .whole f.1)

theorem mem_loadOne {found : List Found} {f : Found} (hf : f ∈ loadOne c s name found) : Discovered c s found f := by
  unfold loadOne at hf
  split at hf
  · rename_i manifest hwhole
    split at hf
    · rename_i hok
      rcases List.mem_append.mp hf with hf | hf
      · exact .inl hf
      · obtain rfl := List.mem_singleton.mp hf
        simp only [Bool.and_eq_true, beq_iff_eq] at hok
        obtain ⟨⟨-, rfl⟩, -⟩ := hok
        exact .inr (.inr ⟨rfl, hwhole⟩)
    · exact .inl hf
  · exact .inl hf

/-- What is discovered was not removed, and is intact or somebody is at work on it. -/
theorem Kept.discovered (h : Kept c s) {before : List Found} {f : Found} (hf : Discovered c s before f) :
    f ∈ before ∨ (s.removed f.1.id = false ∧ (f.2 = .INSTALLED → Complete s f.1.id ∨ s.idle f.1.id = false) ∧
      (f.2 = .VENDORED → f.1 ∈ c.vendored)) := by
  rcases hf with hf | ⟨htrust, hvendored⟩ | ⟨htrust, hwhole⟩
  · exact .inl hf
  · refine .inr ⟨Bool.eq_false_iff.mpr fun hr => ?_, fun hinstalled => ?_, fun _ => hvendored⟩
    · exact (h.gone _ hr).2.2.2 f.1 hvendored rfl
    · cases htrust.symm.trans hinstalled
  · have hnot : (s.disk f.1.id).cleared = false := by simp [Dir.cleared, hwhole]
    refine .inr ⟨h.not_removed hnot, fun _ => ?_, fun hvendored => ?_⟩
    · cases hidle : s.idle f.1.id with
      | false => exact .inr rfl
      | true => exact .inl ((h.settled _ hidle).resolve_left fun hcleared => by cases hnot.symm.trans hcleared)
    · cases htrust.symm.trans hvendored

/-- A reconciliation goes on without changing a row. -/
theorem Kept.discover (h : Kept c s) (hi : s.calls[i]? = some (.reconcile pc))
    (hpending : ∀ f ∈ pc'.pending, Discovered c s pc.pending f) : Kept c { s with calls := s.calls.set i (.reconcile pc') } := by
  have hmem : ∀ f ∈ pc.pending, (f.2 = .INSTALLED → Complete s f.1.id ∨ s.idle f.1.id = false) ∧
    (f.2 = .VENDORED → f.1 ∈ c.vendored) := h.sure _ (List.mem_of_getElem? hi)
  have hsure : Sure c s (.reconcile pc') := fun f hf => (h.discovered (hpending f hf)).elim (hmem f) And.right
  refine h.goOn hi rfl (List.Subset.refl _) rfl rfl rfl (fun _ => rfl) 0 nofun
    (fun f hf => (h.discovered (hpending f hf)).imp_right And.left) ?_
  refine hsure.mono (List.Subset.refl _) nofun nofun fun f _ hheld => hheld.imp_right fun hidle => ?_
  exact (@idle_set s i (.reconcile pc) (.reconcile pc') f.1.id hi rfl).trans hidle

theorem save_rows_self : ∃ row, (s.save found).rows found.1.id = some row ∧ row.trust = found.2 ∧
    ∀ before, s.rows found.1.id = some before → row.isEnabled = before.isEnabled := by
  refine ⟨_, Function.update_self .., rfl, fun before hbefore => ?_⟩
  simp only [hbefore]

theorem save_rows_ne {id : ℕ} (hne : id ≠ found.1.id) : (s.save found).rows id = s.rows id := Function.update_of_ne hne ..

/-- A row is created or brought up to date. -/
theorem Kept.save (h : Kept c s) (hi : s.calls[i]? = some (.reconcile pc)) (hfound : found ∈ pc.pending)
    (hpending : ∀ f ∈ pc'.pending, f ∈ pc.pending) :
    Kept c { s.save found with calls := s.calls.set i (.reconcile pc') } := by
  have hmem : ∀ f ∈ pc.pending, (f.2 = .INSTALLED → Complete s f.1.id ∨ s.idle f.1.id = false) ∧
    (f.2 = .VENDORED → f.1 ∈ c.vendored) := h.sure _ (List.mem_of_getElem? hi)
  obtain ⟨row, hrow, htrust, -⟩ := @save_rows_self s found
  have hidle (id : ℕ) : State.idle { s.save found with calls := s.calls.set i (.reconcile pc') } id = s.idle id :=
    idle_set_of rfl hi rfl
  have hnot : s.removed found.1.id = false := Bool.eq_false_iff.mpr fun hr =>
    unclaimed_iff.mp (h.gone _ hr).2.2.1 _ (List.mem_of_getElem? hi) found hfound rfl
  refine h.turn hi rfl (List.Subset.refl _) found.1.id
    (fun id hne => ⟨rfl, save_rows_ne hne, rfl, rfl, nofun⟩) nofun nofun
    (fun f hf => .inl (hpending f hf)) (fun f hf => ⟨fun htrust => ?_, (hmem f (hpending f hf)).2⟩) (.inl ⟨rfl, rfl⟩)
    (.inl fun _ => by rw [show (_ : State).rows found.1.id = some row from hrow]; rfl)
    (fun hid => hid.elim .inl fun hb => .inr (.inl ((hidle _).trans hb)))
    ⟨h.files _, fun hid => h.settled _ ((hidle _).symm.trans hid), fun row' hrow' htrust' => ?_, fun hr => ?_⟩
  · rw [hidle]
    exact (hmem f (hpending f hf)).1 htrust
  · cases hrow.symm.trans hrow'
    rw [hidle]
    exact (hmem found hfound).1 (htrust.symm.trans htrust')
  · cases hnot.symm.trans hr

/-- What a step of a reconciliation comes to. -/
inductive Reconciles (c : Config) (s : State) (pc : ReconcilePc) : ReconcilePc → Change → Prop where
  | discover {pc' : ReconcilePc} (hpending : ∀ f ∈ pc'.pending, Discovered c s pc.pending f) : Reconciles c s pc pc' .none
  | save {pc' : ReconcilePc} {found : Found} (hfound : found ∈ pc.pending) (hpending : ∀ f ∈ pc'.pending, f ∈ pc.pending) :
      Reconciles c s pc pc' (.save found)

theorem Reconciles.quit : Reconciles c s pc .ended .none := .discover fun _ hf => (List.not_mem_nil hf).elim

theorem applyTurn_reconciles (hturn : applyTurn s found existing todo m = some (call', change)) :
    ∃ pc', call' = .reconcile pc' ∧ Reconciles c s (.applying ((found, existing) :: todo)) pc' change := by
  have hsaved (hreply : onReply (Call.reconcile .ended) (.reconcile (.applying todo)) (.save found) m.reply = (call', change)) :
      ∃ pc', call' = .reconcile pc' ∧ Reconciles c s (.applying ((found, existing) :: todo)) pc' change := by
    obtain ⟨-, rfl, rfl⟩ | ⟨-, rfl, rfl⟩ | ⟨-, rfl, rfl⟩ := onReply_cases hreply
    · exact ⟨_, rfl, .save List.mem_cons_self fun _ hf => List.mem_cons_of_mem _ hf⟩
    · exact ⟨_, rfl, .save List.mem_cons_self fun _ hf => (List.not_mem_nil hf).elim⟩
    · exact ⟨_, rfl, .quit⟩
  unfold applyTurn at hturn
  split at hturn
  · split at hturn
    · cases hturn
    split at hturn
    · exact hsaved (Option.some.inj hturn)
    · cases hturn
      exact ⟨_, rfl, .quit⟩
  · split at hturn
    · cases hturn
      exact ⟨_, rfl, .quit⟩
    · exact hsaved (Option.some.inj hturn)

theorem reconcileTurn_reconciles (hturn : reconcileTurn c s pc m = some (call', change)) :
    ∃ pc', call' = .reconcile pc' ∧ Reconciles c s pc pc' change := by
  have hquery {pc pc' : ReconcilePc} (hreply : onReply (Call.reconcile .ended) (.reconcile pc') .none m.reply = (call', change))
      (hturns : Reconciles c s pc pc' .none) : ∃ pc', call' = .reconcile pc' ∧ Reconciles c s pc pc' change := by
    obtain ⟨-, rfl, rfl⟩ | ⟨-, rfl, rfl⟩ | ⟨-, rfl, rfl⟩ := onReply_cases hreply
    · exact ⟨_, rfl, hturns⟩
    · exact ⟨_, rfl, .quit⟩
    · exact ⟨_, rfl, .quit⟩
  cases pc with
  | start =>
    refine hquery (Option.some.inj hturn) (.discover fun f hf => .inr (.inl ?_))
    obtain ⟨manifest, hmanifest, rfl⟩ := List.mem_map.mp hf
    exact ⟨rfl, (List.mem_filter.mp hmanifest).1⟩
  | reading names found =>
    cases names with
    | nil => exact hquery (Option.some.inj hturn) (.discover fun f hf => .inl hf)
    | cons name names => exact hquery (Option.some.inj hturn) (.discover fun f hf => mem_loadOne hf)
  | asserting found todo =>
    cases todo with
    | nil => exact hquery (Option.some.inj hturn) (.discover fun f hf => .inl hf)
    | cons f todo =>
      unfold reconcileTurn at hturn
      dsimp only at hturn
      split at hturn
      · cases hturn
        exact ⟨_, rfl, .quit⟩
      · exact hquery (Option.some.inj hturn) (.discover fun f hf => .inl hf)
  | existing found =>
    refine hquery (Option.some.inj hturn) (.discover fun f hf => .inl ?_)
    simpa [ReconcilePc.pending, Function.comp_def] using hf
  | applying todo =>
    cases todo with
    | nil =>
      cases hturn
      exact ⟨_, rfl, .quit⟩
    | cons head todo => exact applyTurn_reconciles hturn
  | ended => cases hturn

/-- **The step of a reconciliation.** -/
theorem Kept.reconcile (h : Kept c s) (hi : s.calls[i]? = some (.reconcile pc)) (hturn : reconcileTurn c s pc m = some (call', change)) :
    Kept c { s.change change with calls := s.calls.set i call' } := by
  obtain ⟨pc', rfl, hreconciles⟩ := reconcileTurn_reconciles hturn
  cases hreconciles with
  | discover hpending => exact h.discover hi hpending
  | save hfound hpending => exact h.save hi hfound hpending

/-- **No reconciliation changes `isEnabled`**, in whatever state. -/
theorem reconcile_enabled (hi : s.calls[i]? = some (.reconcile pc)) (hnext : next c s (.turn i m) = some s') {id : ℕ} {row : Row}
    (hrow : s.rows id = some row) : ∃ row', s'.rows id = some row' ∧ row'.isEnabled = row.isEnabled := by
  obtain ⟨call, hi', hnext⟩ := Option.bind_eq_some_iff.mp hnext
  obtain ⟨⟨call', change⟩, hturn, hs⟩ := Option.bind_eq_some_iff.mp hnext
  cases hi.symm.trans hi'
  cases hs
  obtain ⟨pc', rfl, hreconciles⟩ := reconcileTurn_reconciles hturn
  cases hreconciles with
  | discover _ => exact ⟨row, hrow, rfl⟩
  | @save found _ _ =>
    by_cases hid : id = found.1.id
    · subst hid
      obtain ⟨row', hrow', -, henabled⟩ := @save_rows_self s found
      exact ⟨row', hrow', henabled row hrow⟩
    · exact ⟨row, (save_rows_ne hid).trans hrow, rfl⟩

end Reconciliations

/-! ### Runs -/

section Runs

variable {c : Config} {s s' : State} {a : Action} {i : ℕ} {call : Call} {m : Meets}

/-- A call arrives. -/
theorem Kept.arrive (h : Kept c s) (hbusy : ∀ id, call.busy id = false) (hlocks : ∀ id, call.locks id = false)
    (hpending : call.pending = []) (hsure : ∀ s, Sure c s call) : Kept c { s with calls := s.calls ++ [call] } := by
  have hold {j : ℕ} {v : Call} (hv : (s.calls ++ [call])[j]? = some v) : s.calls[j]? = some v ∨ v = call := by
    by_cases hj : j < s.calls.length
    · rw [List.getElem?_append_left hj] at hv
      exact .inl hv
    · rw [List.getElem?_append_right (not_lt.mp hj)] at hv
      exact .inr (List.mem_singleton.mp (List.mem_of_getElem? hv))
  have hidle (id : ℕ) : State.idle { s with calls := s.calls ++ [call] } id = s.idle id := by
    unfold State.idle
    rw [List.all_append]
    simp [hbusy id]
  refine ⟨fun j k a b id ha hb hja hjb => ?_, fun j k a b id ha hb hja hjb => ?_, fun v hv => ?_, h.files, fun id hid => ?_,
    fun id row hrow htrust => ?_, fun id hr => ?_⟩
  · rcases hold ha with ha | rfl
    · rcases hold hb with hb | rfl
      · exact h.busy j k a b id ha hb hja hjb
      · cases (hbusy id).symm.trans hjb
    · cases (hbusy id).symm.trans hja
  · rcases hold ha with ha | rfl
    · rcases hold hb with hb | rfl
      · exact h.locks j k a b id ha hb hja hjb
      · cases (hlocks id).symm.trans hjb
    · cases (hlocks id).symm.trans hja
  · rcases List.mem_append.mp hv with hv | hv
    · exact (h.sure v hv).mono (List.Subset.refl _) (fun _ _ => ⟨rfl, rfl⟩) (fun _ _ hsome => hsome)
        fun f _ hheld => hheld.imp_right fun hb => (hidle _).trans hb
    · rw [List.mem_singleton.mp hv]
      exact hsure _
  · exact h.settled id ((hidle id).symm.trans hid)
  · rw [hidle]
    exact h.rows id row hrow htrust
  · obtain ⟨hrow, hcleared, hun, hvendored⟩ := h.gone id hr
    refine ⟨hrow, hcleared, ?_, hvendored⟩
    rw [unclaimed_iff]
    intro v hv
    rcases List.mem_append.mp hv with hv | hv
    · exact unclaimed_iff.mp hun v hv
    · rw [List.mem_singleton.mp hv, hpending]
      exact fun _ hf => (List.not_mem_nil hf).elim

/-- **The step.** -/
theorem kept_next (h : Kept c s) (hnext : next c s a = some s') (horderly : orderly c s a = true) : Kept c s' := by
  cases a with
  | uploadCapability u =>
    cases hnext
    exact h.arrive (fun id => by simp [Call.busy]) (fun _ => rfl) rfl fun _ => trivial
  | removeCapability id =>
    cases hnext
    exact h.arrive (busy_quiet rfl) (fun _ => rfl) rfl fun _ => trivial
  | reconcileNow =>
    cases hnext
    exact h.arrive (fun _ => rfl) (fun _ => rfl) rfl fun _ _ hf => (List.not_mem_nil hf).elim
  | turn i m =>
    obtain ⟨call, hi, hnext⟩ := Option.bind_eq_some_iff.mp hnext
    obtain ⟨⟨call', change⟩, hturn, hs⟩ := Option.bind_eq_some_iff.mp hnext
    cases hs
    cases call with
    | upload u pc => exact h.upload hi hturn horderly
    | removal id pc => exact h.removal hi hturn horderly
    | reconcile pc => exact h.reconcile hi hturn
  | setCapabilityEnabled id isEnabled =>
    obtain ⟨row, hrow, hnext⟩ := Option.bind_eq_some_iff.mp hnext
    split at hnext
    · cases hnext
    cases hnext
    have hsome (id' : ℕ) (h : (s.rows id').isSome) : (Function.update s.rows id (some { row with isEnabled }) id').isSome := by
      by_cases hid : id' = id
      · subst hid
        rw [Function.update_self]
        rfl
      · rwa [Function.update_of_ne hid]
    refine ⟨h.busy, h.locks, fun v hv => ?_, h.files, h.settled, fun id' row' hrow' htrust => ?_, fun id' hr => ?_⟩
    · exact (h.sure v hv).mono (List.Subset.refl _) (fun _ _ => ⟨rfl, rfl⟩) (fun id' _ => hsome id') fun _ _ hheld => hheld
    · by_cases hid : id' = id
      · subst hid
        have hself : Function.update s.rows id' (some { row with isEnabled }) id' = some { row with isEnabled } := Function.update_self ..
        cases hself.symm.trans hrow'
        exact h.rows id' row hrow htrust
      · have hother : Function.update s.rows id (some { row with isEnabled }) id' = s.rows id' := Function.update_of_ne hid ..
        exact h.rows id' row' (hother.symm.trans hrow') htrust
    · obtain ⟨hnone, hrest⟩ := h.gone id' hr
      have hid : id' ≠ id := fun heq => by
        rw [heq, hrow] at hnone
        cases hnone
      exact ⟨(Function.update_of_ne hid ..).trans hnone, hrest⟩
  | execute id =>
    obtain ⟨row, hrow, hnext⟩ := Option.bind_eq_some_iff.mp hnext
    split at hnext
    · cases hnext
    · cases hnext
      exact ⟨h.busy, h.locks, fun v hv => (h.sure v hv).mono (List.Subset.refl _) (fun _ _ => ⟨rfl, rfl⟩) (fun _ _ hsome => hsome)
        fun _ _ hheld => hheld, h.files, h.settled, h.rows, h.gone⟩

theorem kept_start : Kept c .start where
  busy i _ _ _ _ h := by simp [State.start] at h
  locks i _ _ _ _ h := by simp [State.start] at h
  sure _ h := (List.not_mem_nil h).elim
  files _ _ := rfl
  settled _ _ := .inl rfl
  rows _ _ h := nomatch h
  gone _ h := nomatch h

theorem not_busy_of_ended (h : call.isEnded = true) (id : ℕ) : call.busy id = false := by
  cases call with
  | upload u pc =>
    obtain rfl : pc = .ended := by simpa [Call.isEnded] using h
    simp [Call.busy]
  | removal id' pc =>
    cases pc with
    | ended => exact busy_quiet rfl id
    | start => cases h
    | locking => cases h
    | recount => cases h
    | erasing => cases h
    | deleting => cases h
  | reconcile pc => rfl

/-- **Installed capabilities.** In an orderly run, whenever nothing is under way every installed row has the files of one
upload; what was removed stays removed; a removal that is refused or fails has changed nothing; and no reconciliation
changes `isEnabled`. -/
theorem installed_sound (h : Reaches (Guarded (step c) fun s a _ => orderly c s a = true) .start s) : Sound c s := by
  have hkept : Kept c s := h.inv kept_start fun _ _ _ hu hs => kept_next hu hs.1 hs.2
  refine ⟨fun hquiet id row hrow htrust => ?_, fun id hr => (hkept.gone id hr).1, fun id outcome erased hmem => hkept.sure _ hmem,
    fun i pc m s' hi hnext id row hrow => reconcile_enabled hi hnext hrow⟩
  refine (hkept.rows id row hrow htrust).resolve_right fun hbusy => ?_
  have hidle : s.idle id = true := idle_iff.mpr fun call hcall => not_busy_of_ended (hquiet call hcall) id
  cases hidle.symm.trans hbusy

end Runs

/-! ### A removal that cannot commit -/

def sampleConfig : Config := ⟨[], fun _ => true⟩

def sampleUpload : Upload := ⟨5, 1, "a", "1", "UI", "CODE"⟩

def meets (reply : Reply) (entry : Entry) : Meets := ⟨reply, .passed, entry, [5], []⟩

/-- An upload by call `i`, with its reconciliation. -/
def uploaded (i : ℕ) : List Action := .uploadCapability sampleUpload :: List.replicate 14 (.turn i (meets .answered .bundle))

/-- A removal by call `i`, up to its commit. -/
def emptied (i : ℕ) : List Action :=
  [.removeCapability 5, .turn i (meets .answered .bundle), .turn i (meets .answered .bundle), .turn i (meets .answered .bundle),
    .turn i (meets .answered .bundle), .turn i (meets .answered .manifest), .turn i (meets .answered .directory)]

/-- Uploaded, disabled, removed and uploaded again. -/
theorem installed_sound_again : ∃ s : State, (∀ call ∈ s.calls, call.isEnded = true) ∧ (s.rows 5).isSome ∧ Sound sampleConfig s := by
  obtain ⟨s, hs, hended, hrow⟩ := Reaches.exists_of_play (next sampleConfig) (orderly sampleConfig) .start
    (uploaded 0 ++ ([.setCapabilityEnabled 5 false] : List Action) ++ emptied 1 ++ ([.turn 1 (meets .answered .bundle)] : List Action) ++ uploaded 2)
    (fun s => (∀ call ∈ s.calls, call.isEnded = true) ∧ (s.rows 5).isSome) (by decide)
  exact ⟨s, hended, hrow, installed_sound hs⟩

/-- The files are gone when the transaction that deletes the row fails to commit: the removal has failed, the row is there,
and its bundle is not. -/
theorem row_without_bundle : ∃ s : State, Reaches (step sampleConfig) .start s ∧ ¬ Sound sampleConfig s := by
  obtain ⟨s, hs, hended, hrow, hdir⟩ := Reaches.exists_of_play (next sampleConfig) (fun _ _ => true) .start
    (uploaded 0 ++ emptied 1 ++ ([.turn 1 (meets .unreached .bundle)] : List Action))
    (fun s => (∀ call ∈ s.calls, call.isEnded = true) ∧ (∃ row ∈ s.rows 5, row.trust = .INSTALLED) ∧ (s.disk 5).cleared = true)
    (by decide)
  refine ⟨s, hs.of_guarded, fun hsound => ?_⟩
  obtain ⟨row, hrow, htrust⟩ := hrow
  exact not_complete_of_cleared hdir (hsound.intact hended 5 row hrow htrust)

end WebAudit.Registry.Installed
