import Mathlib.Algebra.Field.Rat
import Mathlib.Algebra.Order.Ring.NNRat
import Mathlib.Data.List.Forall2
import WebAudit.Archive.Zip

/-!
# Inspecting an archive

`inspectArchive` answers for an archive before anything of it is written: its size, its format, its
paths, the kinds of its members, and what it would expand to.
-/

namespace WebAudit.Archive

open WebAudit.Lib WebAudit.Lib.Uri

/-! ### Limits -/

structure ArchiveLimits where
  maxBytes : ℚ≥0
  maxRatio : ℚ≥0
  maxEntries : ℚ≥0
  maxUncompressedBytes : ℚ≥0

def uncompressedBudget (archiveBytes : ℕ) (limits : ArchiveLimits) : ℚ≥0 :=
  min (archiveBytes * limits.maxRatio) limits.maxUncompressedBytes

/-- A member that has passed every rule, by the segments of its path. -/
structure InspectedEntry where
  path : List Text
  compressedBytes : ℕ
  uncompressedBytes : ℕ
  isDirectory : Bool
  deriving DecidableEq

structure ArchiveInspection where
  archiveBytes : ℕ
  entries : List InspectedEntry
  fileCount : ℕ
  totalUncompressedBytes : ℕ
  deriving DecidableEq

namespace ArchiveInspection

def expansionRatio (inspection : ArchiveInspection) : ℚ≥0 :=
  if inspection.archiveBytes = 0 then 0 else inspection.totalUncompressedBytes / inspection.archiveBytes

end ArchiveInspection

/-! ### The rules -/

/-- What a kind of entry is called. -/
def describeType (type : ℕ) : String :=
  if type = 0xa000 then "a symbolic link"
  else if type = 0x6000 then "a block device"
  else if type = 0x2000 then "a character device"
  else if type = 0xc000 then "a socket"
  else if type = 0x1000 then "a FIFO"
  else "a non-regular entry (mode 0x" ++ String.ofList (Nat.toDigits 16 type) ++ ")"

def assertRegular (entry : ZipCentralEntry) (entryPath : Text) : Except Failure Unit :=
  match entry.unixMode with
  | none => .ok ()
  | some mode =>
    let type := fileType mode
    if type = 0 ∨ type = 0x8000 ∨ type = 0x4000 then .ok ()
    else .error (.refused ⟨.nonRegularEntry,
      describeType type ++ " is never extracted; only files and directories are", some entryPath, none, none⟩)

/-- The variables of the loop over the directory. -/
structure Seen where
  paths : List (List Text)
  totalUncompressedBytes : ℕ
  fileCount : ℕ

def inspectEntry (archiveBytes : ℕ) (limits : ArchiveLimits) (seen : Seen) (entry : ZipCentralEntry) :
    Except Failure (InspectedEntry × Seen) := do
  let path ← normaliseEntryPath entry.rawPath
  assertRegular entry (join path)
  if path ∈ seen.paths then
    throw (.refused ⟨.malformedArchive, "two members normalise to the same path", some (join path), none, none⟩)
  if entry.isDirectory then return (⟨path, 0, 0, true⟩, { seen with paths := path :: seen.paths })
  if entry.compressionMethod ≠ compressionStore ∧ entry.compressionMethod ≠ compressionDeflate then
    throw (.refused ⟨.unsupportedCompression, "compression method " ++ toString entry.compressionMethod ++
      " is not one this platform will run; store and deflate are", some (join path), none, none⟩)
  let budget := uncompressedBudget archiveBytes limits
  let total := seen.totalUncompressedBytes + entry.uncompressedBytes
  if budget < total then
    throw (.refused ⟨if budget = limits.maxUncompressedBytes then .uncompressedTooLarge else .expansionRatioExceeded,
      "the archive declares more extracted content than the published expansion budget allows for an upload of " ++
        toString archiveBytes ++ " bytes", some (join path), some total, some budget⟩)
  return (⟨path, entry.compressedBytes, entry.uncompressedBytes, false⟩, ⟨path :: seen.paths, total, seen.fileCount + 1⟩)

def inspectEntries (archiveBytes : ℕ) (limits : ArchiveLimits) :
    Seen → List ZipCentralEntry → Except Failure (List InspectedEntry × Seen)
  | seen, [] => .ok ([], seen)
  | seen, entry :: rest => do
    let (inspected, seen) ← inspectEntry archiveBytes limits seen entry
    let (entries, seen) ← inspectEntries archiveBytes limits seen rest
    return (inspected :: entries, seen)

def inspectArchive (bytes : Bytes) (limits : ArchiveLimits) : Except Failure ArchiveInspection := do
  if limits.maxBytes < bytes.length then
    throw (.refused ⟨.archiveTooLarge, "the upload is larger than the published archive size limit", none,
      some bytes.length, some limits.maxBytes⟩)
  let zip ← looksLikeZip bytes
  if !zip then
    throw (.refused ⟨.unsupportedFormat, "only zip archives are accepted, and this does not begin like one", none, none, none⟩)
  let directory ← readCentralDirectory bytes
  if limits.maxEntries < directory.length then
    throw (.refused ⟨.tooManyEntries, "the archive declares more members than the published limit", none,
      some directory.length, some limits.maxEntries⟩)
  let (entries, seen) ← inspectEntries bytes.length limits ⟨[], 0, 0⟩ directory
  return ⟨bytes.length, entries, seen.fileCount, seen.totalUncompressedBytes⟩

/-! ### What an inspection says -/

section Inspection

variable {archiveBytes : ℕ} {limits : ArchiveLimits} {seen seen' : Seen} {entry : ZipCentralEntry}
  {inspected : InspectedEntry} {directory : List ZipCentralEntry} {entries : List InspectedEntry} {bytes : Bytes}
  {inspection : ArchiveInspection}

/-- An inspected member is one of the directory, under its normal form. -/
structure Inspects (entry : ZipCentralEntry) (inspected : InspectedEntry) : Prop where
  path : normaliseEntryPath entry.rawPath = .ok inspected.path
  kind : inspected.isDirectory = entry.isDirectory
  declared : inspected.uncompressedBytes = if inspected.isDirectory then 0 else entry.uncompressedBytes

/-- A member passes the rules, given what has been seen. -/
structure Passes (archiveBytes : ℕ) (limits : ArchiveLimits) (seen : Seen) (inspected : InspectedEntry) (seen' : Seen) : Prop where
  fresh : inspected.path ∉ seen.paths
  paths : seen'.paths = inspected.path :: seen.paths
  total : seen'.totalUncompressedBytes = seen.totalUncompressedBytes + inspected.uncompressedBytes
  within : (seen.totalUncompressedBytes : ℚ≥0) ≤ uncompressedBudget archiveBytes limits →
    (seen'.totalUncompressedBytes : ℚ≥0) ≤ uncompressedBudget archiveBytes limits

theorem inspectEntry_ok (h : inspectEntry archiveBytes limits seen entry = .ok (inspected, seen')) :
    Inspects entry inspected ∧ Passes archiveBytes limits seen inspected seen' := by
  unfold inspectEntry at h
  obtain ⟨path, hpath, h⟩ := bind_ok_iff.mp h
  obtain ⟨-, -, h⟩ := bind_ok_iff.mp h
  simp only [bind, Except.bind, pure, Except.pure, throw, throwThe, MonadExceptOf.throw] at h
  split at h
  · cases h
  rename_i hfresh
  split at h
  · rename_i hdirectory
    cases h
    exact ⟨⟨hpath, hdirectory.symm, rfl⟩, ⟨hfresh, rfl, rfl, id⟩⟩
  rename_i hdirectory
  split at h
  · cases h
  split at h
  · cases h
  · rename_i hbudget
    cases h
    refine ⟨⟨hpath, ((Bool.not_eq_true _).mp hdirectory).symm, rfl⟩, ⟨hfresh, rfl, rfl, fun _ => not_lt.mp hbudget⟩⟩

/-- What is said of all members. -/
structure Inspected (directory : List ZipCentralEntry) (entries : List InspectedEntry) : Prop where
  each : List.Forall₂ Inspects directory entries
  distinct : (entries.map InspectedEntry.path).Nodup

theorem inspectEntries_ok (h : inspectEntries archiveBytes limits seen directory = .ok (entries, seen')) :
    Inspected directory entries ∧ (∀ path ∈ entries.map InspectedEntry.path, path ∉ seen.paths) ∧
      seen'.totalUncompressedBytes = seen.totalUncompressedBytes + (entries.map InspectedEntry.uncompressedBytes).sum ∧
      ((seen.totalUncompressedBytes : ℚ≥0) ≤ uncompressedBudget archiveBytes limits →
        (seen'.totalUncompressedBytes : ℚ≥0) ≤ uncompressedBudget archiveBytes limits) := by
  induction directory generalizing seen entries with
  | nil =>
    cases h
    exact ⟨⟨.nil, List.nodup_nil⟩, fun _ h => (List.not_mem_nil h).elim, rfl, id⟩
  | cons entry directory ih =>
    unfold inspectEntries at h
    obtain ⟨⟨inspected, middle⟩, hentry, h⟩ := bind_ok_iff.mp h
    obtain ⟨⟨rest, last⟩, hrest, h⟩ := bind_ok_iff.mp h
    cases h
    obtain ⟨hinspects, hpasses⟩ := inspectEntry_ok hentry
    obtain ⟨hall, hfresh, htotal, hwithin⟩ := ih hrest
    rw [hpasses.paths] at hfresh
    refine ⟨⟨.cons hinspects hall.each, ?_⟩, fun path hmem => ?_, ?_, fun hle => hwithin (hpasses.within hle)⟩
    · rw [List.map_cons, List.nodup_cons]
      exact ⟨fun hmem => hfresh _ hmem List.mem_cons_self, hall.distinct⟩
    · rw [List.map_cons] at hmem
      rcases List.mem_cons.mp hmem with rfl | hmem
      · exact hpasses.fresh
      · exact fun hseen => hfresh path hmem (List.mem_cons_of_mem _ hseen)
    · rw [htotal, hpasses.total, List.map_cons, List.sum_cons, Nat.add_assoc]

/-- **What is accepted**: members of the directory, at distinct paths, and within the budget. -/
theorem inspectArchive_ok (h : inspectArchive bytes limits = .ok inspection) :
    ∃ directory, readCentralDirectory bytes = .ok directory ∧ Inspected directory inspection.entries ∧
      ((inspection.entries.map InspectedEntry.uncompressedBytes).sum : ℚ≥0) ≤ uncompressedBudget bytes.length limits := by
  unfold inspectArchive at h
  simp only [bind, Except.bind, pure, Except.pure, throw, throwThe, MonadExceptOf.throw] at h
  split at h
  · cases h
  split at h
  · cases h
  split at h
  · cases h
  split at h
  · cases h
  rename_i directory hdirectory
  split at h
  · cases h
  split at h
  · cases h
  · rename_i result hentries
    obtain ⟨entries, seen⟩ := result
    cases h
    obtain ⟨hall, -, htotal, hwithin⟩ := inspectEntries_ok hentries
    refine ⟨directory, hdirectory, hall, ?_⟩
    have hle := hwithin (by rw [Nat.cast_zero]; exact zero_le)
    rw [htotal] at hle
    simpa using hle

end Inspection

end WebAudit.Archive
