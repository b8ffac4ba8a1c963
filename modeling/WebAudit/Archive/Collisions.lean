import WebAudit.Archive.Extract

/-!
# Members in each other's way

The members of an archive have distinct paths, but a file may be where another member needs a
directory, and stripping may bring two members together. What becomes of a member is decided by those
before it (`fate`): this is what extraction does (`extractEntry_fate`), and when a whole archive is
extracted or refused (`guarded_iff`).
-/

namespace WebAudit.Archive

open WebAudit.Lib.Uri

/-! ### Fates -/

/-- A member as it is extracted. -/
structure Laid where
  path : List Text
  isDirectory : Bool
  content : Bytes

/-- A file that a directory at `path` cannot be made for. -/
def blocked (before : List Laid) (path : List Text) : Bool := before.any fun p => !p.isDirectory && p.path.isPrefixOf path

/-- Something is at `path`. -/
def taken (before : List Laid) (path : List Text) : Bool := before.any fun p => path.isPrefixOf p.path

/-- A directory is. -/
def takenByDirectory (before : List Laid) (path : List Text) : Bool :=
  before.any fun p => path.isPrefixOf p.path && (p.isDirectory || p.path != path)

inductive Fate where
  | fine
  | refused
  | failed
  deriving DecidableEq

namespace Extraction

variable (x : Extraction) (central : List (List Text × ZipCentralEntry))

def stripped (entry : InspectedEntry) : List Text := entry.path.drop x.stripComponents

/-- What a member decompresses to, where it can be read. -/
def data (entry : InspectedEntry) : Option Stream :=
  match centralGet central entry.path with
  | none => none
  | some member =>
    match localDataOffset x.bytes member with
    | .error _ => none
    | .ok start => some (x.stream member start)

/-- A member that survives the strip. -/
def lays (entry : InspectedEntry) : List Laid :=
  if x.stripped entry = [] then []
  else [⟨x.stripped entry, entry.isDirectory, ((x.data central entry).map fun stream => stream.chunks.flatten).getD []⟩]

/-- What becomes of member `i`, after those before it. -/
def fate (root : Path) (before : List Laid) (i : ℕ) (entry : InspectedEntry) : Fate :=
  let path := x.stripped entry
  if path = [] then .fine
  else if root = [] then .refused
  else if entry.isDirectory then if blocked before path then .failed else .fine
  else if blocked before path.dropLast then .failed
  else
    match x.data central entry with
    | none => .refused
    | some stream =>
      let exceeds := entry.uncompressedBytes < stream.chunks.flatten.length
      if taken before path then if exceeds ∧ x.race i ∧ takenByDirectory before path = false then .refused else .failed
      else if exceeds then .refused
      else if stream.error.isSome then .failed
      else .fine

/-- None fails before the first that is refused. -/
def Spared (root : Path) : List Laid → ℕ → List InspectedEntry → Prop
  | _, _, [] => True
  | before, i, entry :: rest =>
    match x.fate central root before i entry with
    | .fine => Spared root (before ++ x.lays central entry) (i + 1) rest
    | .refused => True
    | .failed => False

end Extraction

section Fates

variable {x : Extraction} {root : Path} {central : List (List Text × ZipCentralEntry)} {before : List Laid} {path : List Text}
  {entry : InspectedEntry} {p : Laid}

theorem blocked_iff : blocked before path = true ↔ ∃ p ∈ before, p.isDirectory = false ∧ p.path <+: path := by
  simp [blocked]

theorem taken_iff : taken before path = true ↔ ∃ p ∈ before, path <+: p.path := by
  simp [taken]

theorem takenByDirectory_iff :
    takenByDirectory before path = true ↔ ∃ p ∈ before, path <+: p.path ∧ (p.isDirectory = true ∨ path ≠ p.path) := by
  simp [takenByDirectory, eq_comm (a := path)]

/-- Above a path and not at it. -/
theorem prefix_dropLast_iff {q : List Text} (hne : path ≠ []) : q <+: path.dropLast ↔ q <+: path ∧ q ≠ path := by
  constructor
  · intro h
    refine ⟨h.trans (List.dropLast_prefix path), ?_⟩
    rintro rfl
    have hlength := h.length_le
    rw [List.length_dropLast] at hlength
    have hpos := List.length_pos_iff.mpr hne
    omega
  · rintro ⟨h, hne'⟩
    refine (List.prefix_of_prefix_length_le h (List.dropLast_prefix path) ?_)
    have hlength := h.length_le
    have hlt : q.length ≠ path.length := fun heq => hne' (h.eq_of_length heq)
    rw [List.length_dropLast]
    omega

end Fates

/-! ### What stands on the disk -/

section Stands

variable {x : Extraction} {root : Path} {central : List (List Text × ZipCentralEntry)} {before : List Laid} {path : List Text}
  {entry : InspectedEntry} {disk : Disk} {fs : Fs} {p : Laid}

/-- Below the root there are the members that have been extracted, and the directories they are in. -/
structure Stands (root : Path) (before : List Laid) (fs : Fs) : Prop where
  ready : Ready root fs
  file : ∀ q content, q ≠ [] → fs (root ++ q) = some (.file content) → ∃ p ∈ before, p.isDirectory = false ∧ p.path = q
  content : ∀ p ∈ before, p.isDirectory = false → fs (root ++ p.path) = some (.file p.content)
  dir : ∀ q, q ≠ [] → (fs (root ++ q) = some .dir ↔ ∃ p ∈ before, q <+: p.path ∧ (p.isDirectory = true ∨ q ≠ p.path))

theorem exists_concat {P : Laid → Prop} : (∃ r ∈ before ++ [p], P r) ↔ (∃ r ∈ before, P r) ∨ P p := by
  simp [or_and_right, exists_or]

/-- Below an empty root. -/
theorem Stands.empty (hready : Ready root fs) (h : ∀ q, q ≠ [] → fs (root ++ q) = none) : Stands root [] fs where
  ready := hready
  file q content hq hfs := nomatch (h q hq).symm.trans hfs
  content p hp := (List.not_mem_nil hp).elim
  dir q hq := by simp [h q hq]

/-- Directories can be made where no file is in the way, and nowhere else. -/
theorem Stands.makes (h : Stands root before disk.fs) (hblocked : blocked before path = false) :
    (mkdirp disk root path).2 = none ∧
      (∀ q, q ≠ [] → q <+: path → (mkdirp disk root path).1.fs (root ++ q) = some .dir) ∧
      ∀ q, q ≠ [] → ¬ q <+: path → (mkdirp disk root path).1.fs (root ++ q) = disk.fs (root ++ q) := by
  obtain ⟨hnone, hdirs, hframe⟩ := @mkdirp_ok disk root path fun q hq hpre content hfs => by
    obtain ⟨p, hp, hfile, rfl⟩ := h.file q content hq hfs
    exact absurd (blocked_iff.mpr ⟨p, hp, hfile, hpre⟩) (by simp [hblocked])
  refine ⟨hnone, hdirs, fun q _ hpre => hframe _ fun r _ hr heq => ?_⟩
  rw [List.append_cancel_left heq] at hpre
  exact hpre hr

theorem Stands.blocks (h : Stands root before disk.fs) (hblocked : blocked before path = true)
    (hne : ∀ p ∈ before, p.path ≠ []) : ∃ e, (mkdirp disk root path).2 = some (.fs e) := by
  obtain ⟨p, hp, hfile, hpre⟩ := blocked_iff.mp hblocked
  exact mkdirp_blocked (hne p hp) hpre (h.content p hp hfile)

/-- A directory more. -/
theorem Stands.directory (h : Stands root before disk.fs) (hblocked : blocked before p.path = false) (hdir : p.isDirectory = true) :
    Stands root (before ++ [p]) (mkdirp disk root p.path).1.fs := by
  obtain ⟨-, hdirs, hframe⟩ := h.makes hblocked
  refine ⟨?_, fun q content hq hfs => ?_, fun r hr hfile => ?_, fun q hq => ?_⟩
  · rw [← h.ready.through]
    exact h.ready.mkdirp_fs p.path
  · by_cases hpre : q <+: p.path
    · cases (hdirs q hq hpre).symm.trans hfs
    · rw [hframe q hq hpre] at hfs
      obtain ⟨r, hr, hrest⟩ := h.file q content hq hfs
      exact ⟨r, List.mem_append_left _ hr, hrest⟩
  · rcases List.mem_append.mp hr with hr | hr
    · have hpre : ¬ r.path <+: p.path := fun hpre =>
        absurd (blocked_iff.mpr ⟨r, hr, hfile, hpre⟩) (by simp [hblocked])
      rw [hframe r.path (fun hnil => hpre (hnil ▸ List.nil_prefix)) hpre]
      exact h.content r hr hfile
    · obtain rfl := List.mem_singleton.mp hr
      cases hfile.symm.trans hdir
  · by_cases hpre : q <+: p.path
    · exact iff_of_true (hdirs q hq hpre) ⟨p, by simp, hpre, .inl hdir⟩
    · rw [hframe q hq hpre, h.dir q hq]
      rw [exists_concat]
      exact (or_iff_left fun hrest => hpre hrest.1).symm

/-- Where nothing is taken, nothing is. -/
theorem Stands.free (h : Stands root before fs) (hne : path ≠ []) (htaken : taken before path = false) : fs (root ++ path) = none := by
  cases hfs : fs (root ++ path) with
  | none => rfl
  | some node =>
    have hnot (p : Laid) (hp : p ∈ before) : ¬ path <+: p.path := fun hpre =>
      absurd (taken_iff.mpr ⟨p, hp, hpre⟩) (by simp [htaken])
    cases node with
    | dir =>
      obtain ⟨p, hp, hpre, -⟩ := (h.dir path hne).mp hfs
      exact absurd hpre (hnot p hp)
    | file content =>
      obtain ⟨p, hp, -, rfl⟩ := h.file path content hne hfs
      exact absurd List.prefix_rfl (hnot p hp)

/-- A file more. -/
theorem Stands.write (h : Stands root before disk.fs) (hne : p.path ≠ []) (hblocked : blocked before p.path.dropLast = false)
    (htaken : taken before p.path = false) (hfile : p.isDirectory = false) :
    Stands root (before ++ [p]) ((mkdirp disk root p.path.dropLast).1.put (root ++ p.path) (some (.file p.content))) := by
  obtain ⟨-, hdirs, hframe⟩ := h.makes hblocked
  have hnot (r : Laid) (hr : r ∈ before) : ¬ p.path <+: r.path := fun hpre =>
    absurd (taken_iff.mpr ⟨r, hr, hpre⟩) (by simp [htaken])
  have hput (q : List Text) (hq : q ≠ p.path) : (mkdirp disk root p.path.dropLast).1.put (root ++ p.path)
      (some (.file p.content)) (root ++ q) = (mkdirp disk root p.path.dropLast).1.fs (root ++ q) :=
    if_neg fun heq => hq (List.append_cancel_left heq)
  refine ⟨?_, fun q content hq hfs => ?_, fun r hr hrfile => ?_, fun q hq => ?_⟩
  · refine Ready.put ?_ hne _
    rw [← h.ready.through]
    exact h.ready.mkdirp_fs p.path.dropLast
  · by_cases heq : q = p.path
    · exact ⟨p, by simp, hfile, heq.symm⟩
    rw [hput q heq] at hfs
    by_cases hpre : q <+: p.path.dropLast
    · cases (hdirs q hq hpre).symm.trans hfs
    · rw [hframe q hq hpre] at hfs
      obtain ⟨r, hr, hrest⟩ := h.file q content hq hfs
      exact ⟨r, List.mem_append_left _ hr, hrest⟩
  · rcases List.mem_append.mp hr with hr | hr
    · have hpre : ¬ r.path <+: p.path.dropLast := fun hpre =>
        absurd (blocked_iff.mpr ⟨r, hr, hrfile, hpre⟩) (by simp [hblocked])
      rw [hput r.path fun heq => hnot r hr (heq ▸ List.prefix_rfl),
        hframe r.path (fun hnil => hpre (hnil ▸ List.nil_prefix)) hpre]
      exact h.content r hr hrfile
    · obtain rfl := List.mem_singleton.mp hr
      exact if_pos rfl
  · by_cases heq : q = p.path
    · subst heq
      refine iff_of_false ?_ ?_
      · rw [show (mkdirp disk root p.path.dropLast).1.put (root ++ p.path) (some (.file p.content))
          (root ++ p.path) = some (.file p.content) from if_pos rfl]
        simp
      · rw [exists_concat]
        rintro (⟨r, hr, hpre, -⟩ | ⟨-, hrest | hrest⟩)
        · exact hnot r hr hpre
        · cases hfile.symm.trans hrest
        · exact hrest rfl
    rw [hput q heq]
    by_cases hpre : q <+: p.path.dropLast
    · exact iff_of_true (hdirs q hq hpre) ⟨p, by simp, ((prefix_dropLast_iff hne).mp hpre).1, .inr heq⟩
    · rw [hframe q hq hpre, h.dir q hq]
      rw [exists_concat]
      exact (or_iff_left fun hrest => hpre ((prefix_dropLast_iff hne).mpr ⟨hrest.1, heq⟩)).symm

end Stands

/-! ### What extraction does -/

section Steps

variable {x : Extraction} {root : Path} {central : List (List Text × ZipCentralEntry)} {before : List Laid} {s : ExtractState}
  {entry : InspectedEntry} {i : ℕ} {stream : Stream}

theorem extractEntry_root (hready : Ready root s.disk.fs) (hclean : Clean entry.path) (hroot : root ≠ [])
    (hne : x.stripped entry ≠ []) :
    extractEntry x root central s i entry =
      let (disk, failure) := mkdirp s.disk root (if entry.isDirectory then x.stripped entry else (x.stripped entry).dropLast)
      let s := { s with disk }
      if entry.isDirectory ∨ failure.isSome then (s, failure)
      else
        match centralGet central entry.path with
        | none =>
          (s, some (.refused ⟨.malformedArchive, "a member present at inspection is no longer in the central directory",
            some (join entry.path), none, none⟩))
        | some member =>
          match localDataOffset x.bytes member with
          | .error e => (s, some e)
          | .ok start => writeEntry x s i (root ++ x.stripped entry) entry (x.stripped entry) (x.stream member start) := by
  have hclean' : Clean (x.stripped entry) := fun segment hmem => hclean segment (List.mem_of_mem_drop hmem)
  have hdirectory : (if entry.isDirectory = true then root ++ x.stripped entry else (root ++ x.stripped entry).dropLast) =
      root ++ if entry.isDirectory = true then x.stripped entry else (x.stripped entry).dropLast := by
    split
    · rfl
    · exact List.dropLast_append_of_ne_nil hne
  unfold extractEntry
  dsimp only
  rw [show entry.path.drop x.stripComponents = x.stripped entry from rfl, if_neg hne, destinationFor_root hclean' hroot]
  dsimp only
  rw [hdirectory, hready.through]
  try rfl

variable (x s i stream) in
/-- What the pipeline ends in. -/
theorem writeEntry_fate (hbudget : ((s.bytesWritten + entry.uncompressedBytes : ℕ) : ℚ≥0) ≤ x.budget) (absolute : Path)
    (stripped : List Text) :
    (s.disk.fs absolute = some .dir → (writeEntry x s i absolute entry stripped stream).2 = some (.fs .eisdir)) ∧
    (∀ content, s.disk.fs absolute = some (.file content) →
      ∃ failure, (writeEntry x s i absolute entry stripped stream).2 = some failure ∧
        (failure.IsRefusal ↔ entry.uncompressedBytes < stream.chunks.flatten.length ∧ x.race i = true)) ∧
    (s.disk.fs absolute = none →
      (entry.uncompressedBytes < stream.chunks.flatten.length →
        ∃ failure, (writeEntry x s i absolute entry stripped stream).2 = some failure ∧ failure.IsRefusal) ∧
      (¬ entry.uncompressedBytes < stream.chunks.flatten.length → stream.error.isSome = true →
        ∃ failure, (writeEntry x s i absolute entry stripped stream).2 = some failure ∧ ¬ failure.IsRefusal) ∧
      (¬ entry.uncompressedBytes < stream.chunks.flatten.length → stream.error.isSome = false →
        writeEntry x s i absolute entry stripped stream =
          (⟨s.disk.writeFile i absolute stream.chunks, s.files ++ [stripped], s.bytesWritten + entry.uncompressedBytes⟩, none))) := by
  have hexceeds (h : entry.uncompressedBytes < stream.chunks.flatten.length) :
      ∃ failure : Failure, (byteBudget (join entry.path) entry.uncompressedBytes x.budget s.bytesWritten 0 stream.chunks).2 =
        some failure ∧ failure.IsRefusal := by
    obtain ⟨failure, hfailure⟩ :=
      byteBudget_exceeds (join entry.path) s.bytesWritten x.budget (h.trans_eq (Nat.zero_add _).symm) (Nat.zero_le entry.uncompressedBytes)
    exact ⟨failure, hfailure, byteBudget_error hfailure⟩
  have hfits (h : ¬ entry.uncompressedBytes < stream.chunks.flatten.length) :
      byteBudget (join entry.path) entry.uncompressedBytes x.budget s.bytesWritten 0 stream.chunks = (stream.chunks, none) :=
    byteBudget_fits hbudget (by omega)
  have hzlib (code : String) : ¬ (Failure.zlib code).IsRefusal := fun ⟨_, h⟩ => nomatch h
  have hfs (e : FsError) : ¬ (Failure.fs e).IsRefusal := fun ⟨_, h⟩ => nomatch h
  unfold writeEntry
  dsimp only
  refine ⟨fun hdir => by rw [hdir], fun content hfile => ?_, fun hfree => ⟨fun h => ?_, fun h herror => ?_, fun h herror => ?_⟩⟩
  · rw [hfile]
    dsimp only
    by_cases h : entry.uncompressedBytes < stream.chunks.flatten.length
    · obtain ⟨failure, hfailure, hrefusal⟩ := hexceeds h
      rw [hfailure]
      cases hrace : x.race i with
      | true => exact ⟨failure, by simp, iff_of_true hrefusal ⟨h, rfl⟩⟩
      | false => exact ⟨.fs .eexist, by simp, iff_of_false (hfs _) (by simp)⟩
    · rw [hfits h]
      cases stream.error with
      | none => exact ⟨.fs .eexist, rfl, iff_of_false (hfs _) fun h' => h h'.1⟩
      | some code =>
        cases hrace : x.race i with
        | true => exact ⟨.zlib code, by simp, iff_of_false (hzlib code) fun h' => h h'.1⟩
        | false => exact ⟨.fs .eexist, by simp, iff_of_false (hfs _) fun h' => h h'.1⟩
  · obtain ⟨failure, hfailure, hrefusal⟩ := hexceeds h
    rw [hfree, hfailure]
    exact ⟨failure, rfl, hrefusal⟩
  · obtain ⟨code, hcode⟩ := Option.isSome_iff_exists.mp herror
    rw [hfree, hfits h, hcode]
    exact ⟨.zlib code, rfl, hzlib code⟩
  · have hnone : stream.error = none := by simpa using herror
    rw [hfree, hfits h, hnone]
    rfl

/-- The loop, and what has been extracted. -/
structure Stage (root : Path) (before : List Laid) (s : ExtractState) : Prop where
  stands : Stands root before s.disk.fs
  nonempty : ∀ p ∈ before, p.path ≠ []
  files : s.files = (before.filter fun p => !p.isDirectory).map Laid.path
  distinct : s.files.Nodup

/-- What is expected of a member with this fate. -/
def Meets (x : Extraction) (root : Path) (central : List (List Text × ZipCentralEntry)) (before : List Laid)
    (s : ExtractState) (entry : InspectedEntry) (result : ExtractState × Option Failure) : Fate → Prop
  | .fine => result.2 = none ∧ Stage root (before ++ x.lays central entry) result.1 ∧
      result.1.bytesWritten ≤ s.bytesWritten + entry.uncompressedBytes
  | .refused => ∃ failure, result.2 = some failure ∧ failure.IsRefusal
  | .failed => ∃ failure, result.2 = some failure ∧ ¬ failure.IsRefusal

theorem not_isRefusal_fs (e : FsError) : ¬ (Failure.fs e).IsRefusal := by
  rintro ⟨_, h⟩
  cases h

/-- A directory more. -/
theorem Stage.directory (h : Stage root before s) (hne : x.stripped entry ≠ []) (hdir : entry.isDirectory = true)
    (hblocked : blocked before (x.stripped entry) = false) :
    Stage root (before ++ x.lays central entry) { s with disk := (mkdirp s.disk root (x.stripped entry)).1 } := by
  unfold Extraction.lays
  rw [if_neg hne]
  refine ⟨h.stands.directory hblocked hdir, fun p hp => ?_, ?_, h.distinct⟩
  · rcases List.mem_append.mp hp with hp | hp
    · exact h.nonempty p hp
    · obtain rfl := List.mem_singleton.mp hp
      exact hne
  · rw [List.filter_append, List.map_append, ← h.files]
    simp [hdir]

/-- A file more. -/
theorem Stage.write (h : Stage root before s) (hne : x.stripped entry ≠ []) (hfile : entry.isDirectory = false)
    (hblocked : blocked before (x.stripped entry).dropLast = false) (htaken : taken before (x.stripped entry) = false)
    (hdata : x.data central entry = some stream) (bytesWritten : ℕ) :
    Stage root (before ++ x.lays central entry)
      ⟨(mkdirp s.disk root (x.stripped entry).dropLast).1.writeFile i (root ++ x.stripped entry) stream.chunks,
        s.files ++ [x.stripped entry], bytesWritten⟩ := by
  unfold Extraction.lays
  rw [if_neg hne, hdata]
  have hstands := h.stands.write (p := ⟨x.stripped entry, entry.isDirectory, stream.chunks.flatten⟩) hne hblocked htaken hfile
  refine ⟨hstands, fun p hp => ?_, ?_, ?_⟩
  · rcases List.mem_append.mp hp with hp | hp
    · exact h.nonempty p hp
    · obtain rfl := List.mem_singleton.mp hp
      exact hne
  · rw [List.filter_append, List.map_append, ← h.files]
    simp [hfile]
  · refine List.nodup_append.mpr ⟨h.distinct, by simp, fun path hpath other hother heq => ?_⟩
    obtain rfl := List.mem_singleton.mp hother
    rw [h.files] at hpath
    obtain ⟨p, hp, rfl⟩ := List.mem_map.mp hpath
    have hpre : x.stripped entry <+: p.path := heq ▸ List.prefix_rfl
    exact absurd (taken_iff.mpr ⟨p, (List.mem_filter.mp hp).1, hpre⟩) (by simp [htaken])

variable (i) in
/-- The pipeline, where the directory of a file could be made. -/
theorem writeEntry_meets (hstage : Stage root before s) (hne : x.stripped entry ≠ []) (hdir : entry.isDirectory = false)
    (hroot : root ≠ []) (hblocked : blocked before (x.stripped entry).dropLast = false)
    (hdata : x.data central entry = some stream) (hbudget : ((s.bytesWritten + entry.uncompressedBytes : ℕ) : ℚ≥0) ≤ x.budget) :
    Meets x root central before s entry
      (writeEntry x { s with disk := (mkdirp s.disk root (x.stripped entry).dropLast).1 } i (root ++ x.stripped entry) entry
        (x.stripped entry) stream)
      (x.fate central root before i entry) := by
  obtain ⟨hdirectory, hfull, hfree⟩ :=
    writeEntry_fate x { s with disk := (mkdirp s.disk root (x.stripped entry).dropLast).1 } i stream hbudget
      (root ++ x.stripped entry) (x.stripped entry)
  have hdisk : (mkdirp s.disk root (x.stripped entry).dropLast).1.fs (root ++ x.stripped entry) =
      s.disk.fs (root ++ x.stripped entry) :=
    (hstage.stands.makes hblocked).2.2 _ hne fun hpre => ((prefix_dropLast_iff hne).mp hpre).2 rfl
  dsimp only at hdirectory hfull hfree
  rw [hdisk] at hdirectory hfull hfree
  unfold Extraction.fate
  dsimp only
  rw [if_neg hne, if_neg hroot, if_neg (by simp [hdir]), if_neg (by simp [hblocked]), hdata]
  dsimp only
  cases htaken : taken before (x.stripped entry) with
  | true =>
    simp only [if_true]
    cases hover : takenByDirectory before (x.stripped entry) with
    | true =>
      rw [if_neg (by simp)]
      exact ⟨_, hdirectory ((hstage.stands.dir _ hne).mpr (takenByDirectory_iff.mp hover)), not_isRefusal_fs _⟩
    | false =>
      obtain ⟨p, hp, hpre⟩ := taken_iff.mp htaken
      have hnot : ¬ (p.isDirectory = true ∨ x.stripped entry ≠ p.path) := fun h =>
        absurd (takenByDirectory_iff.mpr ⟨p, hp, hpre, h⟩) (by simp [hover])
      obtain ⟨hfile, hpath⟩ := not_or.mp hnot
      have hcontent := hstage.stands.content p hp (by simpa using hfile)
      rw [← not_not.mp hpath] at hcontent
      obtain ⟨failure, hfailure, hiff⟩ := hfull p.content hcontent
      split
      · rename_i h
        exact ⟨failure, hfailure, hiff.mpr ⟨h.1, h.2.1⟩⟩
      · rename_i h
        exact ⟨failure, hfailure, fun hrefusal => h ⟨(hiff.mp hrefusal).1, (hiff.mp hrefusal).2, rfl⟩⟩
  | false =>
    simp only [Bool.false_eq_true, if_false]
    obtain ⟨hexceeds, herror, hfine⟩ := hfree (hstage.stands.free hne htaken)
    by_cases hlt : entry.uncompressedBytes < stream.chunks.flatten.length
    · rw [if_pos hlt]
      exact hexceeds hlt
    rw [if_neg hlt]
    cases hcode : stream.error.isSome with
    | true => exact herror hlt hcode
    | false =>
      rw [if_neg (by simp), hfine hlt hcode]
      exact ⟨rfl, hstage.write hne hdir hblocked htaken hdata _, le_rfl⟩

variable (x central i) in
/-- **The step**: a member meets its fate. -/
theorem extractEntry_fate (hstage : Stage root before s) (hclean : Clean entry.path)
    (hbudget : ((s.bytesWritten + entry.uncompressedBytes : ℕ) : ℚ≥0) ≤ x.budget) :
    Meets x root central before s entry (extractEntry x root central s i entry) (x.fate central root before i entry) := by
  have hclean' : Clean (x.stripped entry) := fun segment hmem => hclean segment (List.mem_of_mem_drop hmem)
  by_cases hne : x.stripped entry = []
  · have hentry : extractEntry x root central s i entry = (s, none) := by
      unfold extractEntry
      exact if_pos hne
    unfold Extraction.fate
    dsimp only
    rw [if_pos hne, hentry]
    refine ⟨rfl, ?_, Nat.le_add_right _ _⟩
    unfold Extraction.lays
    rw [if_pos hne, List.append_nil]
    exact hstage
  by_cases hroot : root = []
  · have hrefused : ∃ failure, destinationFor root (x.stripped entry) = .error failure := by
      unfold destinationFor
      rw [foldl_push hclean', hroot]
      exact ⟨_, if_pos ⟨by simpa using hne, fun h => h.1 rfl⟩⟩
    obtain ⟨failure, hfailure⟩ := hrefused
    unfold Extraction.fate
    dsimp only
    rw [if_neg hne, if_pos hroot]
    refine ⟨failure, ?_, destinationFor_error hfailure⟩
    unfold extractEntry
    rw [show entry.path.drop x.stripComponents = x.stripped entry from rfl]
    dsimp only
    rw [if_neg hne, hfailure]
  rw [extractEntry_root hstage.stands.ready hclean hroot hne]
  dsimp only
  cases hdir : entry.isDirectory with
  | true =>
    unfold Extraction.fate
    dsimp only
    rw [if_neg hne, if_neg hroot, if_pos hdir]
    simp only [if_true, true_or]
    cases hblocked : blocked before (x.stripped entry) with
    | true =>
      obtain ⟨e, he⟩ := hstage.stands.blocks hblocked hstage.nonempty
      exact ⟨.fs e, he, not_isRefusal_fs e⟩
    | false =>
      exact ⟨(hstage.stands.makes hblocked).1, hstage.directory hne hdir hblocked, Nat.le_add_right _ _⟩
  | false =>
    simp only [Bool.false_eq_true, if_false, false_or]
    cases hblocked : blocked before (x.stripped entry).dropLast with
    | true =>
      have hfate : x.fate central root before i entry = .failed := by
        unfold Extraction.fate
        dsimp only
        rw [if_neg hne, if_neg hroot, if_neg (by simp [hdir]), if_pos hblocked]
      rw [hfate]
      obtain ⟨e, he⟩ := hstage.stands.blocks hblocked hstage.nonempty
      rw [he]
      exact ⟨.fs e, rfl, not_isRefusal_fs e⟩
    | false =>
      simp only [(hstage.stands.makes hblocked).1, Option.isSome_none, Bool.false_eq_true, if_false]
      have hunread (h : x.data central entry = none) : x.fate central root before i entry = .refused := by
        unfold Extraction.fate
        dsimp only
        rw [if_neg hne, if_neg hroot, if_neg (by simp [hdir]), if_neg (by simp [hblocked]), h]
      cases hmember : centralGet central entry.path with
      | none =>
        rw [hunread (by simp [Extraction.data, hmember])]
        exact ⟨_, rfl, _, rfl⟩
      | some member =>
        dsimp only
        cases hoffset : localDataOffset x.bytes member with
        | error failure =>
          rw [hunread (by simp [Extraction.data, hmember, hoffset])]
          exact ⟨failure, rfl, localDataOffset_error hoffset⟩
        | ok start =>
          have hdata : x.data central entry = some (x.stream member start) := by
            simp [Extraction.data, hmember, hoffset]
          exact writeEntry_meets i hstage hne hdir hroot hblocked hdata hbudget

end Steps

/-! ### What a whole extraction does -/

section Whole

variable {x : Extraction} {root : Path} {central : List (List Text × ZipCentralEntry)} {before : List Laid} {s : ExtractState}
  {entries : List InspectedEntry} {i : ℕ} {fs : Fs}

variable (x central before s i) in
/-- **The run**: every member is extracted or one is refused, or a member fails, as the fates say. -/
theorem extractEntries_fate (hstage : Stage root before s) (hclean : ∀ entry ∈ entries, Clean entry.path)
    (hbudget : ((s.bytesWritten + (entries.map InspectedEntry.uncompressedBytes).sum : ℕ) : ℚ≥0) ≤ x.budget) :
    (x.Spared central root before i entries ∧
        (((extractEntries x root central s i entries).2 = none ∧
            Stage root (before ++ entries.flatMap (x.lays central)) (extractEntries x root central s i entries).1) ∨
          ∃ failure, (extractEntries x root central s i entries).2 = some failure ∧ failure.IsRefusal)) ∨
      (¬ x.Spared central root before i entries ∧
        ∃ failure, (extractEntries x root central s i entries).2 = some failure ∧ ¬ failure.IsRefusal) := by
  induction entries generalizing before s i with
  | nil => exact .inl ⟨trivial, .inl ⟨rfl, by simpa [extractEntries] using hstage⟩⟩
  | cons entry entries ih =>
    rw [List.map_cons, List.sum_cons] at hbudget
    have hmeets := extractEntry_fate x central i hstage (hclean entry List.mem_cons_self)
      (le_trans (Nat.cast_le.mpr (by omega)) hbudget)
    unfold Extraction.Spared extractEntries
    generalize extractEntry x root central s i entry = result at hmeets ⊢
    obtain ⟨s', failure⟩ := result
    cases hfate : x.fate central root before i entry with
    | fine =>
      rw [hfate] at hmeets
      obtain ⟨rfl, hstage', hwritten⟩ := hmeets
      dsimp only at hwritten ⊢
      rw [List.flatMap_cons, ← List.append_assoc]
      refine ih _ _ _ hstage' (fun e he => hclean e (List.mem_cons_of_mem _ he)) (le_trans (Nat.cast_le.mpr ?_) hbudget)
      omega
    | refused =>
      rw [hfate] at hmeets
      obtain ⟨failure, rfl, hrefusal⟩ := hmeets
      exact .inl ⟨trivial, .inr ⟨failure, rfl, hrefusal⟩⟩
    | failed =>
      rw [hfate] at hmeets
      obtain ⟨failure, rfl, hrefusal⟩ := hmeets
      exact .inr ⟨id, failure, rfl, hrefusal⟩

/-- A directory to extract to, which is there, and in directories. -/
structure Destination where
  root : Path
  fs : Fs
  ready : Ready root fs

namespace Destination

def Empty (dest : Destination) : Prop := ∀ q, q ≠ [] → dest.fs (dest.root ++ q) = none

theorem mkdirp_root (dest : Destination) : mkdirp ⟨dest.fs, []⟩ [] dest.root = (⟨dest.fs, []⟩, none) := by
  have h := dest.ready
  have happend := @mkdirp_append ⟨dest.fs, []⟩ [] dest.root [] fun q _ hq => h q hq
  rw [List.append_nil] at happend
  exact happend

end Destination

/-- The paths of the regular members that survive the strip. -/
def Extraction.survivors (x : Extraction) (entries : List InspectedEntry) : List (List Text) :=
  ((entries.filter fun entry => !entry.isDirectory).map x.stripped).filter fun path => path != []

theorem lays_files (entries : List InspectedEntry) :
    ((entries.flatMap (x.lays central)).filter fun p => !p.isDirectory).map Laid.path = x.survivors entries := by
  unfold Extraction.survivors
  induction entries with
  | nil => rfl
  | cons entry entries ih =>
    rw [List.flatMap_cons, List.filter_append, List.map_append, ih]
    unfold Extraction.lays
    by_cases hne : x.stripped entry = []
    · cases hdir : entry.isDirectory <;> simp [hne, hdir]
    · cases hdir : entry.isDirectory <;> simp [hne, hdir]

/-- The central directory of an archive that has one. -/
def Extraction.directory (x : Extraction) : List (List Text × ZipCentralEntry) :=
  match readCentralDirectory x.bytes >>= centralMap with
  | .ok central => central
  | .error _ => []

/-- Every regular member that survives is there, at a path of its own. -/
structure Written (x : Extraction) (root : Path) (fs : Fs) (result : ExtractionResult) : Prop where
  files : result.files = x.survivors result.inspection.entries
  distinct : result.files.Nodup
  content : ∀ entry ∈ result.inspection.entries, entry.isDirectory = false → x.stripped entry ≠ [] →
    fs (root ++ x.stripped entry) = some (.file (((x.data x.directory entry).map fun stream => stream.chunks.flatten).getD []))

/-- What is asked of an extraction. -/
structure Guarded (x : Extraction) (dest : Destination) : Prop where
  /-- Nothing is done unless the archive is accepted. -/
  inspected : ∀ failure, inspectArchive x.bytes x.limits = .error failure → (extractArchive x dest.root dest.fs).1.log = []
  /-- All that is created is at or below the root. -/
  contained : ∀ op ∈ (extractArchive x dest.root dest.fs).1.log, ∀ q, op.creates = some q → dest.root <+: q
  /-- The bytes that reach the disk are within the budget, and what each member declares. -/
  budget : ((((extractArchive x dest.root dest.fs).1.log.map Effect.written).sum : ℕ) : ℚ≥0) ≤ x.budget
  declared : ∀ inspection, inspectArchive x.bytes x.limits = .ok inspection → ∀ i entry, inspection.entries[i]? = some entry →
    ((extractArchive x dest.root dest.fs).1.log.map (Effect.writtenFor i)).sum ≤ entry.uncompressedBytes
  /-- Into an empty directory, all is written or the archive is refused. -/
  complete : ∀ inspection, inspectArchive x.bytes x.limits = .ok inspection → dest.Empty →
    (∃ result, (extractArchive x dest.root dest.fs).2 = .ok result ∧ result.inspection = inspection ∧
        Written x dest.root (extractArchive x dest.root dest.fs).1.fs result) ∨
      ∃ e, (extractArchive x dest.root dest.fs).2 = .error (.refused e)

theorem inspects_of_mem {directory : List ZipCentralEntry} (h : List.Forall₂ Inspects directory entries) :
    ∀ entry ∈ entries, ∃ candidate, Inspects candidate entry := by
  induction h with
  | nil => exact fun _ h => (List.not_mem_nil h).elim
  | cons hinspects _ ih =>
    intro entry hmem
    rcases List.mem_cons.mp hmem with rfl | hmem
    · exact ⟨_, hinspects⟩
    · exact ih entry hmem

theorem centralMap_ok {directory : List ZipCentralEntry} (h : List.Forall₂ Inspects directory entries) :
    ∃ central, centralMap directory = .ok central := by
  induction h with
  | nil => exact ⟨[], rfl⟩
  | @cons candidate entry directory entries hinspects _ ih =>
    obtain ⟨central, hcentral⟩ := ih
    refine ⟨(entry.path, candidate) :: central, ?_⟩
    unfold centralMap
    rw [hinspects.path, hcentral]
    rfl

/-- An accepted archive has a directory, of clean paths. -/
theorem inspectArchive_directory {inspection : ArchiveInspection} (h : inspectArchive x.bytes x.limits = .ok inspection) :
    (readCentralDirectory x.bytes >>= centralMap) = .ok x.directory ∧ (∀ entry ∈ inspection.entries, Clean entry.path) ∧
      (((inspection.entries.map InspectedEntry.uncompressedBytes).sum : ℕ) : ℚ≥0) ≤ x.budget := by
  obtain ⟨directory, hdirectory, hinspected, hbudget⟩ := inspectArchive_ok h
  obtain ⟨central, hcentral⟩ := centralMap_ok hinspected.each
  have hbind : (readCentralDirectory x.bytes >>= centralMap) = .ok central := by
    rw [hdirectory]
    exact hcentral
  refine ⟨?_, fun entry hmem => ?_, hbudget⟩
  · unfold Extraction.directory
    rw [hbind]
  · obtain ⟨candidate, hinspects⟩ := inspects_of_mem hinspected.each entry hmem
    exact (normaliseEntryPath_clean hinspects.path).2

/-- The loop of an accepted archive. -/
def Extraction.run (x : Extraction) (dest : Destination) (inspection : ArchiveInspection) : ExtractState × Option Failure :=
  extractEntries x dest.root x.directory ⟨⟨dest.fs, []⟩, [], 0⟩ 0 inspection.entries

theorem extractArchive_error (dest : Destination) {failure : Failure} (h : inspectArchive x.bytes x.limits = .error failure) :
    extractArchive x dest.root dest.fs = (⟨dest.fs, []⟩, .error failure) := by
  unfold extractArchive
  rw [h]

theorem extractArchive_ok (dest : Destination) {inspection : ArchiveInspection}
    (h : inspectArchive x.bytes x.limits = .ok inspection) :
    extractArchive x dest.root dest.fs = ((x.run dest inspection).1.disk,
      match (x.run dest inspection).2 with
      | some failure => .error failure
      | none => .ok ⟨inspection, (x.run dest inspection).1.files, (x.run dest inspection).1.bytesWritten⟩) := by
  unfold extractArchive
  rw [h]
  dsimp only
  rw [dest.mkdirp_root]
  dsimp only
  rw [(inspectArchive_directory h).1]
  dsimp only
  rw [show extractEntries x dest.root x.directory ⟨⟨dest.fs, []⟩, [], 0⟩ 0 inspection.entries = x.run dest inspection from rfl]
  obtain ⟨s, failure⟩ := x.run dest inspection
  cases failure <;> rfl

/-- What stands after the loop is what is asked. -/
theorem Stage.written {inspection : ArchiveInspection} (h : Stage root (inspection.entries.flatMap (x.lays x.directory)) s) :
    Written x root s.disk.fs ⟨inspection, s.files, s.bytesWritten⟩ where
  files := h.files.trans (lays_files inspection.entries)
  distinct := h.distinct
  content entry hmem hfile hne := by
    refine h.stands.content ⟨x.stripped entry, entry.isDirectory, _⟩ ?_ hfile
    refine List.mem_flatMap.mpr ⟨entry, hmem, ?_⟩
    unfold Extraction.lays
    rw [if_neg hne]
    exact List.mem_singleton_self _

/-- **All-guarded**, exactly when no member fails before one is refused. -/
theorem guarded_iff (x : Extraction) (dest : Destination) :
    Guarded x dest ↔ ∀ inspection, inspectArchive x.bytes x.limits = .ok inspection → dest.Empty →
      x.Spared x.directory dest.root [] 0 inspection.entries := by
  cases hinspect : inspectArchive x.bytes x.limits with
  | error failure =>
    have hrun := extractArchive_error dest hinspect
    refine iff_of_true ?_ nofun
    refine ⟨fun _ _ => by rw [hrun], fun op hop => ?_, ?_, fun _ h => ?_, fun _ h => ?_⟩
    · rw [hrun] at hop
      exact (List.not_mem_nil hop).elim
    · rw [hrun]
      simp
    · cases hinspect.symm.trans h
    · cases hinspect.symm.trans h
  | ok inspection =>
    have hrun := extractArchive_ok dest hinspect
    obtain ⟨-, hclean, hbudget⟩ := inspectArchive_directory hinspect
    have hadds := extractEntries_adds x x.directory ⟨⟨dest.fs, []⟩, [], 0⟩ 0 dest.ready hclean
    obtain ⟨ops, hops, hunder, hsum, -, heach⟩ := hadds.ops
    rw [List.nil_append] at hops
    have hlog : (extractArchive x dest.root dest.fs).1.log = ops := by
      rw [hrun]
      exact hops
    have hfate (hempty : dest.Empty) := extractEntries_fate x x.directory [] ⟨⟨dest.fs, []⟩, [], 0⟩ 0
      ⟨.empty dest.ready hempty, fun _ h => (List.not_mem_nil h).elim, rfl, List.nodup_nil⟩ hclean (by simpa using hbudget)
    constructor
    · intro h inspection' hinspect' hempty
      cases hinspect'
      rcases hfate hempty with ⟨hspared, -⟩ | ⟨-, failure, hfailure, hrefusal⟩
      · exact hspared
      · exfalso
        have hresult : (extractArchive x dest.root dest.fs).2 = .error failure := by
          rw [hrun]
          unfold Extraction.run
          rw [hfailure]
        rcases h.complete inspection hinspect hempty with ⟨result, hok, -⟩ | ⟨e, herror⟩
        · cases hok.symm.trans hresult
        · cases herror.symm.trans hresult
          exact hrefusal ⟨e, rfl⟩
    · intro hspared
      refine ⟨fun failure h => ?_, ?_, ?_, fun inspection' h i entry hentry => ?_, fun inspection' h hempty => ?_⟩
      · cases hinspect.symm.trans h
      · rw [hlog]
        exact hunder
      · rw [hlog]
        exact le_trans (Nat.cast_le.mpr hsum) hbudget
      · cases hinspect.symm.trans h
        rw [hlog]
        have hentry' := heach i entry hentry
        rwa [Nat.zero_add] at hentry'
      · cases hinspect.symm.trans h
        rcases hfate hempty with ⟨-, ⟨hnone, hstage⟩ | ⟨failure, hfailure, e, rfl⟩⟩ | ⟨hnot, -⟩
        · refine .inl ⟨⟨inspection, (x.run dest inspection).1.files, (x.run dest inspection).1.bytesWritten⟩, ?_, rfl, ?_⟩
          · rw [hrun]
            unfold Extraction.run
            rw [hnone]
          · rw [hrun]
            exact hstage.written
        · refine .inr ⟨e, ?_⟩
          rw [hrun]
          unfold Extraction.run
          rw [hfailure]
        · exact absurd (hspared inspection rfl hempty) hnot

end Whole

/-! ### A file where a directory is needed -/

section Sample

def u16 (n : ℕ) : Bytes := [UInt8.ofNat n, UInt8.ofNat (n / 0x100)]

def u32 (n : ℕ) : Bytes := u16 n ++ u16 (n / 0x10000)

/-- An empty member that is stored. -/
def sampleHeader (name : Bytes) : Bytes :=
  u32 signatureLocalHeader ++ List.replicate 22 0 ++ u16 name.length ++ u16 0 ++ name

def sampleEntry (name : Bytes) (offset : ℕ) : Bytes :=
  u32 signatureCentralEntry ++ List.replicate 24 0 ++ u16 name.length ++ List.replicate 12 0 ++ u32 offset ++ name

/-- An archive of two empty files. -/
def sampleZip (first second : Bytes) : Bytes :=
  let headers := sampleHeader first ++ sampleHeader second
  let directory := sampleEntry first 0 ++ sampleEntry second (sampleHeader first).length
  headers ++ directory ++ u32 signatureEocd ++ u16 0 ++ u16 0 ++ u16 2 ++ u16 2 ++ u32 directory.length ++
    u32 headers.length ++ u16 0

def publishedLimits : ArchiveLimits where
  maxBytes := 52428800
  maxRatio := 100
  maxEntries := 20000
  maxUncompressedBytes := 536870912

/-- `a` and `a/b`. -/
def nested : Extraction where
  bytes := sampleZip [0x61] [0x61, 0x2F, 0x62]
  limits := publishedLimits
  stripComponents := 0
  inflate bytes := ⟨[bytes], none⟩
  race _ := false

def workspace : Destination where
  root := [ascii "work"]
  fs q := if q = [] ∨ q = [ascii "work"] then some .dir else none
  ready q hq := by
    refine if_pos ?_
    rcases List.prefix_cons_iff.mp hq with rfl | ⟨t, rfl, ht⟩
    · exact .inl rfl
    · rw [List.prefix_nil.mp ht]
      exact .inr rfl

/-- With an error of the file system. -/
def failsInFs : Except Failure ExtractionResult → Bool
  | .error (.fs _) => true
  | _ => false

/-- The archive is accepted, and its second member meets the first where it needs a directory. -/
theorem nested_fails : ¬ Guarded nested workspace := by
  intro h
  have hfails : failsInFs (extractArchive nested workspace.root workspace.fs).2 = true := by decide +kernel
  have haccepted : (inspectArchive nested.bytes nested.limits).toBool = true := by decide +kernel
  cases hinspect : inspectArchive nested.bytes nested.limits with
  | error failure =>
    rw [hinspect] at haccepted
    cases haccepted
  | ok inspection =>
    have hempty : workspace.Empty := fun q hq => if_neg (by simp [workspace, hq])
    rcases h.complete inspection hinspect hempty with ⟨result, hresult, -⟩ | ⟨e, herror⟩
    · rw [hresult] at hfails
      cases hfails
    · rw [herror] at hfails
      cases hfails

end Sample

end WebAudit.Archive
