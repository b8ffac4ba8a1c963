import Mathlib.Data.NNRat.Defs
import WebAudit.Lib.Refusals
import WebAudit.Lib.Uri

/-!
# What an archive says of itself

`readCentralDirectory` reads the directory at the end of a zip; `normaliseEntryPath` brings the path
of a member into its one normal form or refuses it.

## The model

Bytes are a list of octets. A read past the end of a buffer throws, `Failure.range`; what the file
system and the decompressor throw are the other failures that are no refusals. Names are read as
Latin-1, so that a code unit of a path is an octet.
-/

namespace WebAudit.Archive

open WebAudit.Lib.Uri

abbrev Bytes := List UInt8

/-! ### Failures -/

inductive ArchiveRefusalReason where
  | archiveTooLarge
  | unsupportedFormat
  | malformedArchive
  | tooManyEntries
  | expansionRatioExceeded
  | uncompressedTooLarge
  | absolutePath
  | pathEscapesRoot
  | nonRegularEntry
  | unsupportedCompression
  | declaredSizeMismatch
  deriving DecidableEq

structure ArchiveRefusedError where
  reason : ArchiveRefusalReason
  detail : String
  entryPath : Option Text := none
  observed : Option ℕ := none
  limit : Option ℚ≥0 := none

/-- What the file system answers to a name that is taken, or is not where it should be. -/
inductive FsError where
  | eexist
  | enotdir
  | eisdir
  deriving DecidableEq

inductive Failure where
  | refused (e : ArchiveRefusedError)
  | range
  | fs (e : FsError)
  | zlib (code : String)

/-- An `ArchiveRefusedError`. -/
def Failure.IsRefusal (failure : Failure) : Prop := ∃ e, failure = .refused e

def malformed (detail : String) : Failure := .refused ⟨.malformedArchive, detail, none, none, none⟩

/-! ### Reading -/

/-- The octet at an offset within the buffer. -/
def octetAt (bytes : Bytes) (offset : ℕ) : ℕ := (bytes.getD offset 0).toNat

def readUInt16LE (bytes : Bytes) (offset : ℕ) : Except Failure ℕ :=
  if offset + 2 ≤ bytes.length then .ok (octetAt bytes offset + 0x100 * octetAt bytes (offset + 1)) else .error .range

def readUInt32LE (bytes : Bytes) (offset : ℕ) : Except Failure ℕ :=
  if offset + 4 ≤ bytes.length then
    .ok (octetAt bytes offset + 0x100 * octetAt bytes (offset + 1) + 0x10000 * octetAt bytes (offset + 2) +
      0x1000000 * octetAt bytes (offset + 3))
  else .error .range

theorem readUInt16LE_ok (bytes : Bytes) (offset : ℕ) (h : offset + 2 ≤ bytes.length) :
    ∃ value, readUInt16LE bytes offset = .ok value := ⟨_, if_pos h⟩

theorem readUInt32LE_ok (bytes : Bytes) (offset : ℕ) (h : offset + 4 ≤ bytes.length) :
    ∃ value, readUInt32LE bytes offset = .ok value := ⟨_, if_pos h⟩

def signatureEocd : ℕ := 0x06054b50
def signatureZip64EocdLocator : ℕ := 0x07064b50
def signatureCentralEntry : ℕ := 0x02014b50
def signatureLocalHeader : ℕ := 0x04034b50

def eocdFixedBytes : ℕ := 22
def eocdMaxSearchBytes : ℕ := eocdFixedBytes + 0xffff

def compressionStore : ℕ := 0
def compressionDeflate : ℕ := 8

/-- What the archive claims about one member. -/
structure ZipCentralEntry where
  rawPath : Text
  compressedBytes : ℕ
  uncompressedBytes : ℕ
  compressionMethod : ℕ
  localHeaderOffset : ℕ
  isDirectory : Bool
  unixMode : Option ℕ
  deriving DecidableEq

def looksLikeZip (bytes : Bytes) : Except Failure Bool :=
  if bytes.length < 4 then .ok false
  else (readUInt32LE bytes 0).map fun signature => signature == signatureLocalHeader || signature == signatureEocd

/-- Backwards from an offset. -/
def findEocdFrom (bytes : Bytes) (searchFrom : ℕ) (offset : ℕ) : Except Failure ℕ :=
  if offset < searchFrom then .error (malformed "no end-of-central-directory record; this is not a readable zip")
  else
    match readUInt32LE bytes offset with
    | .error e => .error e
    | .ok signature =>
      if signature = signatureEocd then .ok offset
      else
        match offset with
        | 0 => .error (malformed "no end-of-central-directory record; this is not a readable zip")
        | offset + 1 => findEocdFrom bytes searchFrom offset

def findEocdOffset (bytes : Bytes) : Except Failure ℕ :=
  findEocdFrom bytes (bytes.length - eocdMaxSearchBytes) (bytes.length - eocdFixedBytes)

/-- The kind bits of a mode. -/
def fileType (mode : ℕ) : ℕ := mode / 0x1000 % 0x10 * 0x1000

/-- Entry `index`, at `cursor`, and where the next one is. -/
def readEntry (bytes : Bytes) (index cursor : ℕ) : Except Failure (ZipCentralEntry × ℕ) := do
  if bytes.length < cursor + 46 then throw (malformed ("central directory entry " ++ toString index ++ " is truncated"))
  let signature ← readUInt32LE bytes cursor
  if signature ≠ signatureCentralEntry then
    throw (malformed ("central directory entry " ++ toString index ++ " has a bad signature"))
  let versionMadeBy ← readUInt16LE bytes (cursor + 4)
  let compressionMethod ← readUInt16LE bytes (cursor + 10)
  let compressedBytes ← readUInt32LE bytes (cursor + 20)
  let uncompressedBytes ← readUInt32LE bytes (cursor + 24)
  let nameLength ← readUInt16LE bytes (cursor + 28)
  let extraLength ← readUInt16LE bytes (cursor + 30)
  let commentLength ← readUInt16LE bytes (cursor + 32)
  let externalAttributes ← readUInt32LE bytes (cursor + 38)
  let localHeaderOffset ← readUInt32LE bytes (cursor + 42)
  if compressedBytes = 0xffffffff ∨ uncompressedBytes = 0xffffffff ∨ localHeaderOffset = 0xffffffff then
    throw (malformed ("central directory entry " ++ toString index ++ " carries a Zip64 sentinel value with no Zip64 " ++
      "locator present; this is not a well-formed 32-bit zip entry"))
  let nameStart := cursor + 46
  let nameEnd := nameStart + nameLength
  if bytes.length < nameEnd then throw (malformed ("central directory entry " ++ toString index ++ " has a truncated name"))
  let rawPath := ((bytes.drop nameStart).take nameLength).map UInt8.toNat
  let unixMode := if versionMadeBy / 0x100 = 3 then some (externalAttributes / 0x10000) else none
  let isDirectory := endsWith rawPath (ascii "/") || unixMode.any fun mode => fileType mode == 0x4000
  return ({ rawPath, compressedBytes, uncompressedBytes, compressionMethod, localHeaderOffset, isDirectory, unixMode },
    nameEnd + extraLength + commentLength)

/-- So many entries, from entry `index` at `cursor` on. -/
def readEntries (bytes : Bytes) : ℕ → ℕ → ℕ → Except Failure (List ZipCentralEntry)
  | 0, _, _ => .ok []
  | n + 1, index, cursor => do
    let (entry, next) ← readEntry bytes index cursor
    let entries ← readEntries bytes n (index + 1) next
    return entry :: entries

def readCentralDirectory (bytes : Bytes) : Except Failure (List ZipCentralEntry) := do
  if bytes.length < eocdFixedBytes then throw (malformed "shorter than an empty zip archive")
  let eocd ← findEocdOffset bytes
  if 20 ≤ eocd then
    let locator ← readUInt32LE bytes (eocd - 20)
    if locator = signatureZip64EocdLocator then
      throw (.refused ⟨.unsupportedFormat, "this is a Zip64 archive; its capacity is only needed past the published size and " ++
        "entry-count limits, so it is refused rather than parsed", none, none, none⟩)
  let entryCount ← readUInt16LE bytes (eocd + 10)
  let directorySize ← readUInt32LE bytes (eocd + 12)
  let directoryOffset ← readUInt32LE bytes (eocd + 16)
  if bytes.length < directoryOffset + directorySize then
    throw (malformed "the central directory extends past the end of the file")
  readEntries bytes entryCount 0 directoryOffset

/-- A text in Latin-1. -/
def latin1 (text : Text) : String := String.ofList (text.map Char.ofNat)

/-- Where the data of an entry begin. -/
def localDataOffset (bytes : Bytes) (entry : ZipCentralEntry) : Except Failure ℕ :=
  let header := entry.localHeaderOffset
  if bytes.length < header + 30 then
    .error (malformed ("the local header for \"" ++ latin1 entry.rawPath ++ "\" is past the end of the file"))
  else do
    let signature ← readUInt32LE bytes header
    if signature ≠ signatureLocalHeader then
      throw (malformed ("the local header for \"" ++ latin1 entry.rawPath ++ "\" has a bad signature"))
    let nameLength ← readUInt16LE bytes (header + 26)
    let extraLength ← readUInt16LE bytes (header + 28)
    let dataStart := header + 30 + nameLength + extraLength
    if bytes.length < dataStart + entry.compressedBytes then
      throw (malformed ("the data for \"" ++ latin1 entry.rawPath ++ "\" is truncated"))
    return dataStart

/-- It refuses, where it fails. -/
theorem localDataOffset_error {bytes : Bytes} {entry : ZipCentralEntry} {failure : Failure}
    (h : localDataOffset bytes entry = .error failure) : failure.IsRefusal := by
  unfold localDataOffset at h
  dsimp only at h
  split at h
  · cases h
    exact ⟨_, rfl⟩
  rename_i hlength
  obtain ⟨signature, hsignature⟩ := readUInt32LE_ok bytes entry.localHeaderOffset (by omega)
  obtain ⟨nameLength, hname⟩ := readUInt16LE_ok bytes (entry.localHeaderOffset + 26) (by omega)
  obtain ⟨extraLength, hextra⟩ := readUInt16LE_ok bytes (entry.localHeaderOffset + 28) (by omega)
  rw [hsignature, hname, hextra] at h
  simp only [bind, Except.bind, pure, Except.pure, throw, throwThe, MonadExceptOf.throw] at h
  split at h
  · cases h
    exact ⟨_, rfl⟩
  · split at h
    · cases h
      exact ⟨_, rfl⟩
    · cases h

/-! ### Paths -/

def driveLetter (text : Text) : Bool :=
  match text with
  | u :: 0x3A :: _ => (0x41 ≤ u && u ≤ 0x5A) || (0x61 ≤ u && u ≤ 0x7A)
  | _ => false

def backslash : ℕ := 0x5C

/-- The segments of the normal form. -/
def normaliseEntryPath (rawPath : Text) : Except Failure (List Text) :=
  if rawPath.contains 0 then
    .error (.refused ⟨.malformedArchive, "an entry path contains a NUL byte",
      some (rawPath.flatMap fun u => if u = 0 then ascii "\\0" else [u]), none, none⟩)
  else
    let unified := rawPath.map fun u => if u = backslash then slash else u
    if startsWith unified [slash] || driveLetter unified then
      .error (.refused ⟨.absolutePath, "an archive member may not name an absolute location", some rawPath, none, none⟩)
    else
      let segments := (unified.splitOn slash).filter fun segment => segment != [] && segment != [dot]
      if segments.contains [dot, dot] then
        .error (.refused ⟨.pathEscapesRoot, "an archive member may not contain a \"..\" segment", some rawPath, none, none⟩)
      else if segments = [] then
        .error (.refused ⟨.malformedArchive, "an archive member has an empty path", some rawPath, none, none⟩)
      else .ok segments

/-- The path of these segments. -/
def join (segments : List Text) : Text := [slash].intercalate segments

/-- No segment of a normal form is passed over or leads up. -/
theorem normaliseEntryPath_clean {rawPath : Text} {segments : List Text} (h : normaliseEntryPath rawPath = .ok segments) :
    segments ≠ [] ∧ ∀ segment ∈ segments, skipped segment = false ∧ parent segment = false := by
  unfold normaliseEntryPath at h
  split at h
  · cases h
  dsimp only at h
  split at h
  · cases h
  split at h
  · cases h
  rename_i hparent
  split at h
  · cases h
  rename_i hne
  cases h
  refine ⟨hne, fun segment hmem => ⟨?_, ?_⟩⟩
  · have hkept := (List.mem_filter.mp hmem).2
    simpa [skipped] using hkept
  · cases hup : parent segment with
    | false => rfl
    | true =>
      obtain rfl : segment = [dot, dot] := by simpa [parent] using hup
      exact absurd (List.contains_iff_mem.mpr hmem) hparent

end WebAudit.Archive
