import Mathlib.Algebra.Order.BigOperators.Group.List
import Mathlib.Algebra.Order.Ring.Nat
import Mathlib.Data.List.Infix
import WebAudit.Archive.Guard

/-!
# Extracting an archive

`extractArchive` inspects an archive and then writes its members below a directory, one after the
other, each through a counter of its bytes.

## The model

A path of the file system is absolute, by its segments; the file system says what is at a path, and
the disk keeps a log of what has been done to it. What zlib makes of the data of a member is a
`Stream`: chunks, and maybe an error after them. A member whose file cannot be opened and whose data
are refused fails with whichever happens first: `race` says of each member whether it is the data.
-/

namespace WebAudit.Archive

open WebAudit.Lib.Uri

/-! ### The disk -/

abbrev Path := List Text

inductive Node where
  | dir
  | file (content : Bytes)
  deriving DecidableEq

abbrev Fs := Path → Option Node

inductive Effect where
  | mkdir (path : Path)
  | create (path : Path)
  /-- Bytes of a member, by its position in the archive. -/
  | write (member : ℕ) (path : Path) (bytes : Bytes)
  | remove (path : Path)

namespace Effect

/-- The file or directory that is created. -/
def creates : Effect → Option Path
  | mkdir path => some path
  | create path => some path
  | _ => none

/-- The bytes that reach the disk. -/
def written : Effect → ℕ
  | write _ _ bytes => bytes.length
  | _ => 0

/-- Those of one member. -/
def writtenFor (member : ℕ) : Effect → ℕ
  | write other _ bytes => if other = member then bytes.length else 0
  | _ => 0

end Effect

structure Disk where
  fs : Fs
  log : List Effect

namespace Disk

def put (disk : Disk) (path : Path) (node : Option Node) : Fs := fun q => if q = path then node else disk.fs q

def mkdir (disk : Disk) (path : Path) : Disk := ⟨disk.put path (some .dir), disk.log ++ [.mkdir path]⟩

/-- A new file, and the chunks that are written to it. -/
def writeFile (disk : Disk) (member : ℕ) (path : Path) (chunks : List Bytes) : Disk :=
  ⟨disk.put path (some (.file chunks.flatten)), disk.log ++ .create path :: chunks.map (.write member path)⟩

def remove (disk : Disk) (path : Path) : Disk := ⟨disk.put path none, disk.log ++ [.remove path]⟩

end Disk

/-- `mkdir` with `recursive`, of a path below another. -/
def mkdirp (disk : Disk) (base : Path) : List Text → Disk × Option Failure
  | [] => (disk, none)
  | segment :: rest =>
    match disk.fs (base ++ [segment]) with
    | some .dir => mkdirp disk (base ++ [segment]) rest
    | some (.file _) => (disk, some (.fs (if rest = [] then .eexist else .enotdir)))
    | none => mkdirp (disk.mkdir (base ++ [segment])) (base ++ [segment]) rest

/-! ### The data of a member -/

/-- What a decompressor puts out. -/
structure Stream where
  chunks : List Bytes
  error : Option String

/-- `ByteBudget`: the chunks it lets through, after `written` bytes, and the refusal it ends in. -/
def byteBudget (entryPath : Text) (declared : ℕ) (budget : ℚ≥0) (bytesWritten : ℕ) : ℕ → List Bytes → List Bytes × Option Failure
  | _, [] => ([], none)
  | written, chunk :: rest =>
    let written := written + chunk.length
    if declared < written then
      ([], some (.refused ⟨.declaredSizeMismatch,
        "the member expanded past the size its own directory entry declared; the extraction was aborted part-way",
        some entryPath, some written, some declared⟩))
    else if budget < bytesWritten + written then
      ([], some (.refused ⟨.expansionRatioExceeded, "the archive expanded past the published budget part-way through a member",
        some entryPath, some written, some (budget - bytesWritten)⟩))
    else
      let (passed, fault) := byteBudget entryPath declared budget bytesWritten written rest
      (chunk :: passed, fault)

structure Extraction where
  bytes : Bytes
  limits : ArchiveLimits
  stripComponents : ℕ
  inflate : Bytes → Stream
  race : ℕ → Bool

namespace Extraction

variable (x : Extraction)

def budget : ℚ≥0 := uncompressedBudget x.bytes.length x.limits

/-- The data of a member, decompressed. -/
def stream (member : ZipCentralEntry) (start : ℕ) : Stream :=
  let compressed := (x.bytes.drop start).take member.compressedBytes
  if member.compressionMethod = compressionDeflate then x.inflate compressed else ⟨[compressed], none⟩

end Extraction

/-- The central directory by normal forms: of entries with the same one, the last. -/
def centralMap : List ZipCentralEntry → Except Failure (List (List Text × ZipCentralEntry))
  | [] => .ok []
  | candidate :: rest => do
    let path ← normaliseEntryPath candidate.rawPath
    let central ← centralMap rest
    return (path, candidate) :: central

def centralGet (central : List (List Text × ZipCentralEntry)) (path : List Text) : Option ZipCentralEntry :=
  (central.reverse.find? fun entry => entry.1 == path).map Prod.snd

def destinationFor (root : Path) (segments : List Text) : Except Failure Path :=
  let absolute := segments.foldl (push skipped parent) root
  -- below the root of the file system nothing starts with `root + sep`
  if absolute ≠ root ∧ ¬ (root ≠ [] ∧ root <+: absolute) then
    .error (.refused ⟨.pathEscapesRoot, "the member resolves outside the extraction root", some (join segments), none, none⟩)
  else .ok absolute

/-! ### One member after the other -/

/-- The variables of the loop. -/
structure ExtractState where
  disk : Disk
  files : List Path
  bytesWritten : ℕ

/-- Through the pipeline into a file that must not be there yet, which is removed when that fails. -/
def writeEntry (x : Extraction) (s : ExtractState) (i : ℕ) (absolute : Path) (entry : InspectedEntry)
    (stripped : List Text) (stream : Stream) : ExtractState × Option Failure :=
  let (passed, refusal) := byteBudget (join entry.path) entry.uncompressedBytes x.budget s.bytesWritten 0 stream.chunks
  let fault := refusal.or (stream.error.map .zlib)
  match s.disk.fs absolute with
  | some .dir => (s, some (.fs .eisdir))
  | some (.file _) =>
    let failure := match fault with
      | some failure => if x.race i then failure else .fs .eexist
      | none => .fs .eexist
    ({ s with disk := s.disk.remove absolute }, some failure)
  | none =>
    let disk := s.disk.writeFile i absolute passed
    match fault with
    | some failure => ({ s with disk := disk.remove absolute }, some failure)
    | none => (⟨disk, s.files ++ [stripped], s.bytesWritten + entry.uncompressedBytes⟩, none)

/-- Member `i`. -/
def extractEntry (x : Extraction) (root : Path) (central : List (List Text × ZipCentralEntry)) (s : ExtractState)
    (i : ℕ) (entry : InspectedEntry) : ExtractState × Option Failure :=
  let stripped := entry.path.drop x.stripComponents
  if stripped = [] then (s, none)
  else
    match destinationFor root stripped with
    | .error e => (s, some e)
    | .ok absolute =>
      let (disk, blocked) := mkdirp s.disk [] (if entry.isDirectory then absolute else absolute.dropLast)
      let s := { s with disk }
      if entry.isDirectory ∨ blocked.isSome then (s, blocked)
      else
        match centralGet central entry.path with
        | none =>
          (s, some (.refused ⟨.malformedArchive, "a member present at inspection is no longer in the central directory",
            some (join entry.path), none, none⟩))
        | some member =>
          match localDataOffset x.bytes member with
          | .error e => (s, some e)
          | .ok start => writeEntry x s i absolute entry stripped (x.stream member start)

/-- From member `i` on. -/
def extractEntries (x : Extraction) (root : Path) (central : List (List Text × ZipCentralEntry)) :
    ExtractState → ℕ → List InspectedEntry → ExtractState × Option Failure
  | s, _, [] => (s, none)
  | s, i, entry :: rest =>
    match extractEntry x root central s i entry with
    | (s, some failure) => (s, some failure)
    | (s, none) => extractEntries x root central s (i + 1) rest

structure ExtractionResult where
  inspection : ArchiveInspection
  files : List Path
  bytesWritten : ℕ

/-- The disk afterwards, and the answer. -/
def extractArchive (x : Extraction) (root : Path) (fs : Fs) : Disk × Except Failure ExtractionResult :=
  match inspectArchive x.bytes x.limits with
  | .error e => (⟨fs, []⟩, .error e)
  | .ok inspection =>
    match mkdirp ⟨fs, []⟩ [] root with
    | (disk, some e) => (disk, .error e)
    | (disk, none) =>
      match readCentralDirectory x.bytes >>= centralMap with
      | .error e => (disk, .error e)
      | .ok central =>
        match extractEntries x root central ⟨disk, [], 0⟩ 0 inspection.entries with
        | (s, some e) => (s.disk, .error e)
        | (s, none) => (s.disk, .ok ⟨inspection, s.files, s.bytesWritten⟩)

/-! ### Directories -/

section Directories

variable {disk : Disk} {base root : Path} {segments rest : List Text}

/-- Through directories that are there. -/
theorem mkdirp_append (h : ∀ q, q ≠ [] → q <+: segments → disk.fs (base ++ q) = some .dir) :
    mkdirp disk base (segments ++ rest) = mkdirp disk (base ++ segments) rest := by
  induction segments generalizing base with
  | nil => simp
  | cons segment segments ih =>
    have hhead : disk.fs (base ++ [segment]) = some .dir := h [segment] (by simp) (by simp)
    rw [List.cons_append, mkdirp, hhead]
    dsimp only
    rw [ih fun q hq hpre => ?_, List.append_assoc, List.singleton_append]
    rw [List.append_assoc, List.singleton_append]
    exact h (segment :: q) (by simp) (List.cons_prefix_cons.mpr ⟨rfl, hpre⟩)

/-- Nothing is created but below the base. -/
theorem mkdirp_log : ∃ ops, (mkdirp disk base segments).1.log = disk.log ++ ops ∧
    ∀ op ∈ ops, ∃ q, q ≠ [] ∧ op = .mkdir (base ++ q) := by
  induction segments generalizing disk base with
  | nil => exact ⟨[], by simp [mkdirp], fun _ h => (List.not_mem_nil h).elim⟩
  | cons segment rest ih =>
    unfold mkdirp
    split
    · obtain ⟨ops, hlog, hops⟩ := @ih disk (base ++ [segment])
      refine ⟨ops, hlog, fun op hop => ?_⟩
      obtain ⟨q, -, rfl⟩ := hops op hop
      exact ⟨segment :: q, by simp, by simp⟩
    · exact ⟨[], by simp, fun _ h => (List.not_mem_nil h).elim⟩
    · obtain ⟨ops, hlog, hops⟩ := @ih (disk.mkdir (base ++ [segment])) (base ++ [segment])
      refine ⟨.mkdir (base ++ [segment]) :: ops, by rw [hlog]; simp [Disk.mkdir], fun op hop => ?_⟩
      rcases List.mem_cons.mp hop with rfl | hop
      · exact ⟨[segment], by simp, rfl⟩
      · obtain ⟨q, -, rfl⟩ := hops op hop
        exact ⟨segment :: q, by simp, by simp⟩

/-- What is not below the base is left alone. -/
theorem mkdirp_outside {q : Path} (h : ∀ r, r ≠ [] → q ≠ base ++ r) : (mkdirp disk base segments).1.fs q = disk.fs q := by
  induction segments generalizing disk base with
  | nil => rfl
  | cons segment rest ih =>
    have hbelow : ∀ r, r ≠ [] → q ≠ base ++ [segment] ++ r := fun r _ => by
      rw [List.append_assoc]
      exact h _ (by simp)
    unfold mkdirp
    split
    · exact ih hbelow
    · rfl
    · rw [ih hbelow]
      exact if_neg (h [segment] (by simp))

/-- Where no file is in the way, directories are all that is new. -/
theorem mkdirp_ok (h : ∀ q, q ≠ [] → q <+: segments → ∀ content, disk.fs (base ++ q) ≠ some (.file content)) :
    (mkdirp disk base segments).2 = none ∧ (∀ q, q ≠ [] → q <+: segments → (mkdirp disk base segments).1.fs (base ++ q) = some .dir) ∧
      ∀ q, (∀ r, r ≠ [] → r <+: segments → q ≠ base ++ r) → (mkdirp disk base segments).1.fs q = disk.fs q := by
  induction segments generalizing disk base with
  | nil => exact ⟨rfl, fun q hq hpre => absurd (List.prefix_nil.mp hpre) hq, fun _ _ => rfl⟩
  | cons segment rest ih =>
    have hfar (q : Path) (hq : q ≠ []) : base ++ [segment] ++ q ≠ base ++ [segment] := by
      simp [hq]
    have hdown (q : Path) (hpre : q <+: rest) : (segment :: q) <+: segment :: rest := List.cons_prefix_cons.mpr ⟨rfl, hpre⟩
    have hassoc (q : Path) : base ++ segment :: q = base ++ [segment] ++ q := by simp
    -- what is asked of the levels below, whether the first one was there or is new
    have hstep (disk' : Disk) (hsame : ∀ q, q ≠ base ++ [segment] → disk'.fs q = disk.fs q)
        (hnew : disk'.fs (base ++ [segment]) = some .dir) :
        (mkdirp disk' (base ++ [segment]) rest).2 = none ∧
          (∀ q, q ≠ [] → q <+: segment :: rest → (mkdirp disk' (base ++ [segment]) rest).1.fs (base ++ q) = some .dir) ∧
          ∀ q, (∀ r, r ≠ [] → r <+: segment :: rest → q ≠ base ++ r) →
            (mkdirp disk' (base ++ [segment]) rest).1.fs q = disk.fs q := by
      obtain ⟨hnone, hdirs, hframe⟩ := @ih disk' (base ++ [segment]) fun q hq hpre content => by
        rw [hsame _ (hfar q hq), ← hassoc]
        exact h (segment :: q) (by simp) (hdown q hpre) content
      refine ⟨hnone, fun q hq hpre => ?_, fun q hq => ?_⟩
      · cases q with
        | nil => exact absurd rfl hq
        | cons s q =>
          obtain ⟨rfl, htail⟩ := List.cons_prefix_cons.mp hpre
          refine (congrArg _ (hassoc q)).trans ?_
          by_cases hnil : q = []
          · subst hnil
            rw [List.append_nil, hframe _ fun r hr _ heq => hfar r hr heq.symm]
            exact hnew
          · exact hdirs q hnil htail
      · rw [hframe q fun r hr hpre heq => hq (segment :: r) (by simp) (hdown r hpre) (heq.trans (hassoc r).symm)]
        exact hsame q (hq [segment] (by simp) (hdown [] (List.nil_prefix)))
    unfold mkdirp
    cases hfs : disk.fs (base ++ [segment]) with
    | none => exact hstep (disk.mkdir (base ++ [segment])) (fun q hq => if_neg hq) (if_pos rfl)
    | some node =>
      cases node with
      | dir => exact hstep disk (fun _ _ => rfl) hfs
      | file content => exact absurd hfs (h [segment] (by simp) (hdown [] (List.nil_prefix)) content)

/-- A file in the way. -/
theorem mkdirp_blocked {q : Path} {content : Bytes} (hq : q ≠ []) (hpre : q <+: segments)
    (h : disk.fs (base ++ q) = some (.file content)) : ∃ e, (mkdirp disk base segments).2 = some (.fs e) := by
  induction segments generalizing disk base q with
  | nil => exact absurd (List.prefix_nil.mp hpre) hq
  | cons segment rest ih =>
    cases q with
    | nil => exact absurd rfl hq
    | cons s q =>
      obtain ⟨rfl, htail⟩ := List.cons_prefix_cons.mp hpre
      have hassoc : base ++ s :: q = base ++ [s] ++ q := by simp
      rw [hassoc] at h
      unfold mkdirp
      cases hfs : disk.fs (base ++ [s]) with
      | none =>
        have hne : base ++ [s] ++ q ≠ base ++ [s] := by
          intro heq
          rw [heq, hfs] at h
          cases h
        have hnil : q ≠ [] := fun hnil => hne (by simp [hnil])
        refine @ih (disk.mkdir (base ++ [s])) _ _ hnil htail ?_
        exact (if_neg hne).trans h
      | some node =>
        cases node with
        | dir =>
          have hnil : q ≠ [] := by
            rintro rfl
            rw [List.append_nil, hfs] at h
            cases h
          exact ih hnil htail h
        | file _ => exact ⟨_, rfl⟩

end Directories

/-! ### What is let through -/

section Budget

variable {entryPath : Text} {declared bytesWritten written : ℕ} {budget : ℚ≥0} {chunks : List Bytes} {failure : Failure}

variable (entryPath bytesWritten budget chunks) in
/-- Never more than was declared. -/
theorem byteBudget_le (h : written ≤ declared) :
    written + (byteBudget entryPath declared budget bytesWritten written chunks).1.flatten.length ≤ declared := by
  induction chunks generalizing written with
  | nil => simpa [byteBudget] using h
  | cons chunk rest ih =>
    unfold byteBudget
    dsimp only
    split
    · simpa using h
    split
    · simpa using h
    · rename_i hle _
      have hrest := @ih (written + chunk.length) (by omega)
      simp only [List.flatten_cons, List.length_append]
      omega

theorem byteBudget_error (h : (byteBudget entryPath declared budget bytesWritten written chunks).2 = some failure) :
    failure.IsRefusal := by
  induction chunks generalizing written with
  | nil => cases h
  | cons chunk rest ih =>
    unfold byteBudget at h
    dsimp only at h
    split at h
    · cases h
      exact ⟨_, rfl⟩
    split at h
    · cases h
      exact ⟨_, rfl⟩
    · exact ih h

/-- With what was declared still in the budget, it is the declaration that decides. -/
theorem byteBudget_fits (hbudget : ((bytesWritten + declared : ℕ) : ℚ≥0) ≤ budget)
    (h : written + chunks.flatten.length ≤ declared) :
    byteBudget entryPath declared budget bytesWritten written chunks = (chunks, none) := by
  induction chunks generalizing written with
  | nil => rfl
  | cons chunk rest ih =>
    rw [List.flatten_cons, List.length_append] at h
    have hin : ¬ budget < bytesWritten + ((written + chunk.length : ℕ) : ℚ≥0) := by
      refine not_lt.mpr (le_trans ?_ hbudget)
      rw [← Nat.cast_add]
      exact Nat.cast_le.mpr (by omega)
    unfold byteBudget
    dsimp only
    rw [if_neg (by omega), if_neg hin, ih (by omega)]

variable (entryPath bytesWritten budget) in
theorem byteBudget_exceeds (h : declared < written + chunks.flatten.length) (hle : written ≤ declared) :
    ∃ failure, (byteBudget entryPath declared budget bytesWritten written chunks).2 = some failure := by
  induction chunks generalizing written with
  | nil =>
    simp at h
    omega
  | cons chunk rest ih =>
    rw [List.flatten_cons, List.length_append] at h
    unfold byteBudget
    dsimp only
    split
    · exact ⟨_, rfl⟩
    split
    · exact ⟨_, rfl⟩
    · exact ih (by omega) (by omega)

end Budget

/-! ### What is done to the disk -/

section Log

variable {x : Extraction} {root absolute : Path} {fs : Fs} {disk : Disk} {central : List (List Text × ZipCentralEntry)}
  {s : ExtractState} {entry : InspectedEntry} {i : ℕ} {log log' : List Effect} {segments : List Text}

/-- The root is a directory, in directories. -/
def Ready (root : Path) (fs : Fs) : Prop := ∀ q, q <+: root → fs q = some .dir

/-- The segments of a normal form. -/
def Clean (segments : List Text) : Prop := ∀ segment ∈ segments, skipped segment = false ∧ parent segment = false

theorem Ready.put (h : Ready root disk.fs) (hne : segments ≠ []) (node : Option Node) :
    Ready root (disk.put (root ++ segments) node) := fun q hq => by
  refine (if_neg ?_).trans (h q hq)
  rintro rfl
  have hlength := hq.length_le
  rw [List.length_append] at hlength
  exact hne (List.length_eq_zero_iff.mp (by omega))

theorem Ready.through (h : Ready root disk.fs) (segments : List Text) :
    mkdirp disk [] (root ++ segments) = mkdirp disk root segments := by
  rw [mkdirp_append fun q _ hq => ?_, List.nil_append]
  rw [List.nil_append]
  exact h q hq

theorem Ready.mkdirp_fs (h : Ready root disk.fs) (segments : List Text) : Ready root (mkdirp disk [] (root ++ segments)).1.fs :=
  fun q hq => by
  rw [h.through, mkdirp_outside fun r hr heq => ?_]
  · exact h q hq
  · have hlength := hq.length_le
    rw [heq, List.length_append] at hlength
    exact hr (List.length_eq_zero_iff.mp (by omega))

theorem destinationFor_ok (hclean : Clean segments) (h : destinationFor root segments = .ok absolute) :
    absolute = root ++ segments := by
  unfold destinationFor at h
  rw [foldl_push hclean] at h
  dsimp only at h
  split at h
  · cases h
  · cases h
    rfl

theorem destinationFor_error {failure : Failure} (h : destinationFor root segments = .error failure) : failure.IsRefusal := by
  unfold destinationFor at h
  dsimp only at h
  split at h
  · cases h
    exact ⟨_, rfl⟩
  · cases h

theorem destinationFor_root (hclean : Clean segments) (hroot : root ≠ []) : destinationFor root segments = .ok (root ++ segments) := by
  unfold destinationFor
  rw [foldl_push hclean]
  exact if_neg fun h => h.2 ⟨hroot, List.prefix_append root segments⟩

/-- What is added to the log is below the root, and writes at most so many bytes, of one member. -/
structure Adds (root : Path) (i declared : ℕ) (log log' : List Effect) : Prop where
  ops : ∃ ops, log' = log ++ ops ∧ (∀ op ∈ ops, ∀ q, op.creates = some q → root <+: q) ∧
    (ops.map Effect.written).sum ≤ declared ∧ ∀ j, j ≠ i → (ops.map (Effect.writtenFor j)).sum = 0

theorem Adds.refl {declared : ℕ} : Adds root i declared log log :=
  ⟨[], by simp, fun _ h => (List.not_mem_nil h).elim, Nat.zero_le _, fun _ _ => rfl⟩

theorem Adds.mono {declared declared' : ℕ} (h : Adds root i declared log log') (hle : declared ≤ declared') :
    Adds root i declared' log log' := by
  obtain ⟨ops, hlog, hunder, hsum, hother⟩ := h.ops
  exact ⟨ops, hlog, hunder, hsum.trans hle, hother⟩

theorem Adds.append {declared declared' : ℕ} {ops : List Effect} (h : Adds root i declared log log')
    (hunder : ∀ op ∈ ops, ∀ q, op.creates = some q → root <+: q) (hsum : (ops.map Effect.written).sum ≤ declared')
    (hother : ∀ j, j ≠ i → (ops.map (Effect.writtenFor j)).sum = 0) : Adds root i (declared + declared') log (log' ++ ops) := by
  obtain ⟨ops', rfl, hunder', hsum', hother'⟩ := h.ops
  refine ⟨ops' ++ ops, List.append_assoc _ _ _, fun op hop => ?_, ?_, fun j hj => ?_⟩
  · rcases List.mem_append.mp hop with hop | hop
    · exact hunder' op hop
    · exact hunder op hop
  · rw [List.map_append, List.sum_append]
    omega
  · rw [List.map_append, List.sum_append, hother' j hj, hother j hj]

theorem mkdirp_adds (h : Ready root disk.fs) (segments : List Text) :
    Adds root i 0 disk.log (mkdirp disk [] (root ++ segments)).1.log := by
  rw [h.through]
  obtain ⟨ops, hlog, hops⟩ := @mkdirp_log disk root segments
  refine ⟨ops, hlog, fun op hop q hq => ?_, Nat.le_of_eq (List.sum_eq_zero fun n hn => ?_), fun j _ => List.sum_eq_zero fun n hn => ?_⟩
  · obtain ⟨r, -, rfl⟩ := hops op hop
    cases hq
    exact List.prefix_append root r
  · obtain ⟨op, hop, rfl⟩ := List.mem_map.mp hn
    obtain ⟨r, -, rfl⟩ := hops op hop
    rfl
  · obtain ⟨op, hop, rfl⟩ := List.mem_map.mp hn
    obtain ⟨r, -, rfl⟩ := hops op hop
    rfl

theorem written_writeFile {path : Path} {chunks : List Bytes} :
    ((Effect.create path :: chunks.map (Effect.write i path)).map Effect.written).sum = chunks.flatten.length := by
  rw [List.map_cons, List.map_map, List.sum_cons, List.length_flatten]
  exact Nat.zero_add _

theorem writtenFor_writeFile {path : Path} {chunks : List Bytes} {j : ℕ} (hj : j ≠ i) :
    ((Effect.create path :: chunks.map (Effect.write i path)).map (Effect.writtenFor j)).sum = 0 := by
  refine List.sum_eq_zero fun n hn => ?_
  obtain ⟨op, hop, rfl⟩ := List.mem_map.mp hn
  rcases List.mem_cons.mp hop with rfl | hop
  · rfl
  · obtain ⟨chunk, -, rfl⟩ := List.mem_map.mp hop
    exact if_neg fun heq => hj heq.symm

theorem writeFile_adds (hready : Ready root disk.fs) (hne : segments ≠ []) {chunks : List Bytes} {declared : ℕ}
    (hle : chunks.flatten.length ≤ declared) :
    Adds root i declared disk.log (disk.writeFile i (root ++ segments) chunks).log ∧
      Ready root (disk.writeFile i (root ++ segments) chunks).fs := by
  refine ⟨⟨_, rfl, fun op hop q hq => ?_, written_writeFile.le.trans hle, fun j hj => writtenFor_writeFile hj⟩, hready.put hne _⟩
  rcases List.mem_cons.mp hop with rfl | hop
  · cases hq
    exact List.prefix_append root segments
  · obtain ⟨chunk, -, rfl⟩ := List.mem_map.mp hop
    cases hq

theorem remove_adds (hready : Ready root disk.fs) (hne : segments ≠ []) {declared : ℕ}
    (h : Adds root i declared log disk.log) :
    Adds root i declared log (disk.remove (root ++ segments)).log ∧ Ready root (disk.remove (root ++ segments)).fs := by
  refine ⟨@h.append _ _ _ _ _ 0 _ (fun op hop q hq => ?_) ?_ fun j _ => ?_, hready.put hne _⟩
  · obtain rfl := List.mem_singleton.mp hop
    cases hq
  · rfl
  · rfl

variable (x s entry i) in
theorem writeEntry_adds (hready : Ready root s.disk.fs) (hne : segments ≠ []) (stripped : List Text) (stream : Stream) :
    Adds root i entry.uncompressedBytes s.disk.log (writeEntry x s i (root ++ segments) entry stripped stream).1.disk.log ∧
      Ready root (writeEntry x s i (root ++ segments) entry stripped stream).1.disk.fs := by
  have hle := byteBudget_le (join entry.path) s.bytesWritten x.budget stream.chunks (Nat.zero_le entry.uncompressedBytes)
  rw [Nat.zero_add] at hle
  have hrefl : Adds root i entry.uncompressedBytes s.disk.log s.disk.log := .refl
  unfold writeEntry
  dsimp only
  split
  · exact ⟨hrefl, hready⟩
  · exact remove_adds hready hne hrefl
  · obtain ⟨hadds, hready'⟩ := writeFile_adds (i := i) hready hne hle
    split
    · exact remove_adds hready' hne hadds
    · exact ⟨hadds, hready'⟩

variable (x central i) in
/-- **The step**: a member adds to the log below the root, at most what it declares. -/
theorem extractEntry_adds (hready : Ready root s.disk.fs) (hclean : Clean entry.path) :
    Adds root i entry.uncompressedBytes s.disk.log (extractEntry x root central s i entry).1.disk.log ∧
      Ready root (extractEntry x root central s i entry).1.disk.fs := by
  have hclean' : Clean (entry.path.drop x.stripComponents) := fun segment hmem => hclean segment (List.mem_of_mem_drop hmem)
  unfold extractEntry
  dsimp only
  split
  · exact ⟨.refl, hready⟩
  rename_i hne
  split
  · exact ⟨.refl, hready⟩
  rename_i absolute habsolute
  obtain rfl := destinationFor_ok hclean' habsolute
  have hmkdir : (if entry.isDirectory = true then root ++ entry.path.drop x.stripComponents
      else (root ++ entry.path.drop x.stripComponents).dropLast) =
      root ++ if entry.isDirectory = true then entry.path.drop x.stripComponents
        else (entry.path.drop x.stripComponents).dropLast := by
    split
    · rfl
    · exact List.dropLast_append_of_ne_nil hne
  rw [hmkdir]
  generalize (if entry.isDirectory = true then entry.path.drop x.stripComponents
    else (entry.path.drop x.stripComponents).dropLast) = segments
  have hadds := mkdirp_adds (i := i) hready segments
  have hready' := hready.mkdirp_fs segments
  generalize mkdirp s.disk [] (root ++ segments) = result at hadds hready'
  obtain ⟨disk, blocked⟩ := result
  dsimp only at hadds hready' ⊢
  have hgrow := hadds.mono (Nat.zero_le entry.uncompressedBytes)
  split
  · exact ⟨hgrow, hready'⟩
  split
  · exact ⟨hgrow, hready'⟩
  split
  · exact ⟨hgrow, hready'⟩
  · rename_i start _
    obtain ⟨hwrite, hwrite'⟩ := writeEntry_adds x { s with disk } entry i hready' hne (entry.path.drop x.stripComponents) (x.stream _ start)
    obtain ⟨ops, hlog, hunder, hsum, hother⟩ := hwrite.ops
    refine ⟨?_, hwrite'⟩
    rw [hlog, ← Nat.zero_add entry.uncompressedBytes]
    exact hadds.append hunder hsum hother

end Log

/-! ### What the whole run does to the disk -/

section Run

variable {x : Extraction} {root : Path} {central : List (List Text × ZipCentralEntry)} {s : ExtractState}
  {entries : List InspectedEntry} {i : ℕ} {log log' : List Effect}

/-- What members from `i` on add to the log. -/
structure AddsAll (root : Path) (i : ℕ) (entries : List InspectedEntry) (log log' : List Effect) : Prop where
  ops : ∃ ops, log' = log ++ ops ∧ (∀ op ∈ ops, ∀ q, op.creates = some q → root <+: q) ∧
    (ops.map Effect.written).sum ≤ (entries.map InspectedEntry.uncompressedBytes).sum ∧
    (∀ j, j < i → (ops.map (Effect.writtenFor j)).sum = 0) ∧
    ∀ k entry, entries[k]? = some entry → (ops.map (Effect.writtenFor (i + k))).sum ≤ entry.uncompressedBytes

theorem AddsAll.refl : AddsAll root i entries log log :=
  ⟨[], by simp, fun _ h => (List.not_mem_nil h).elim, Nat.zero_le _, fun _ _ => rfl, fun _ _ _ => Nat.zero_le _⟩

theorem writtenFor_le (ops : List Effect) (i : ℕ) : (ops.map (Effect.writtenFor i)).sum ≤ (ops.map Effect.written).sum := by
  refine List.sum_le_sum fun op _ => ?_
  cases op with
  | write member path bytes =>
    change (if member = i then bytes.length else 0) ≤ bytes.length
    split
    · exact le_rfl
    · exact Nat.zero_le _
  | mkdir => exact le_rfl
  | create => exact le_rfl
  | remove => exact le_rfl

theorem Adds.all {entry : InspectedEntry} {middle : List Effect} (h : Adds root i entry.uncompressedBytes log middle)
    (hrest : AddsAll root (i + 1) entries middle log') : AddsAll root i (entry :: entries) log log' := by
  obtain ⟨ops, rfl, hunder, hsum, hother⟩ := h.ops
  obtain ⟨ops', rfl, hunder', hsum', hbefore, heach⟩ := hrest.ops
  refine ⟨ops ++ ops', List.append_assoc _ _ _, fun op hop => ?_, ?_, fun j hj => ?_, fun k e hk => ?_⟩
  · rcases List.mem_append.mp hop with hop | hop
    · exact hunder op hop
    · exact hunder' op hop
  · rw [List.map_append, List.sum_append, List.map_cons, List.sum_cons]
    omega
  · rw [List.map_append, List.sum_append, hother j (by omega), hbefore j (by omega)]
  · rw [List.map_append, List.sum_append]
    cases k with
    | zero =>
      cases hk
      rw [Nat.add_zero, hbefore i (by omega), Nat.add_zero]
      exact (writtenFor_le ops i).trans hsum
    | succ k =>
      rw [hother (i + (k + 1)) (by omega), Nat.zero_add, show i + (k + 1) = i + 1 + k by omega]
      exact heach k e hk

variable (x central s i) in
/-- **The run**, whether it ends or fails. -/
theorem extractEntries_adds (hready : Ready root s.disk.fs) (hclean : ∀ entry ∈ entries, Clean entry.path) :
    AddsAll root i entries s.disk.log (extractEntries x root central s i entries).1.disk.log := by
  induction entries generalizing s i with
  | nil => exact .refl
  | cons entry entries ih =>
    obtain ⟨hadds, hready'⟩ := extractEntry_adds x central i hready (hclean entry List.mem_cons_self)
    unfold extractEntries
    split
    · rename_i hstep
      rw [hstep] at hadds
      exact hadds.all .refl
    · rename_i hstep
      rw [hstep] at hadds hready'
      exact hadds.all (ih _ _ hready' fun e he => hclean e (List.mem_cons_of_mem _ he))

end Run

end WebAudit.Archive
