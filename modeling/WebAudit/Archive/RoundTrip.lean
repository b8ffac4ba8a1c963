import WebAudit.Archive.Encoding

/-!
# Reading an archive back

An archive is encoded as some octets (its local headers and data), its directory, the record at the
end and a comment. Its entries are read back just when the record that is found describes them: a comment may bring
a record of its own, and the octets before the record may look like those of a Zip64 archive.
-/

namespace WebAudit.Archive

open WebAudit.Lib WebAudit.Lib.Uri

/-- A member of the directory, with its extra field and its comment. -/
structure Member extends CentralHeader where
  extra : Bytes
  comment : Bytes
  extraLength_eq : extraLength.toNat = extra.length
  commentLength_eq : commentLength.toNat = comment.length
  plain : ¬ toFixedPart.Sentinel

def Member.encode (m : Member) : Bytes := m.toCentralHeader.encode ++ (m.extra ++ m.comment)

def directoryOf (members : List Member) : Bytes := members.flatMap Member.encode

/-- Within the limits of the format of 32 bits. -/
structure ZipArchive where
  /-- Local headers and data. -/
  body : Bytes
  members : List Member
  comment : Bytes
  record : EndRecord
  entryCount_eq : record.entryCount.toNat = members.length
  directorySize_eq : record.directorySize.toNat = (directoryOf members).length
  directoryOffset_eq : record.directoryOffset.toNat = body.length
  commentLength_eq : record.commentLength.toNat = comment.length

namespace ZipArchive

def encode (a : ZipArchive) : Bytes := a.body ++ (directoryOf a.members ++ (a.record.encode ++ a.comment))

def entries (a : ZipArchive) : List ZipCentralEntry := a.members.map fun m => m.toCentralHeader.entry

/-- Where its own end record stands. -/
def recordOffset (a : ZipArchive) : ℕ := a.body.length + (directoryOf a.members).length

/-- No Zip64 locator stands before the last signature of an end record, and that is its own, or the record it begins
describes the same entries. -/
def Legible (a : ZipArchive) : Prop :=
  ∃ offset, EndsAt a.encode offset ∧ ¬ LocatedBefore a.encode offset ∧
    (offset = a.recordOffset ∨ Describes a.encode offset a.entries)

section RoundTrip

variable {a : ZipArchive} {bytes : Bytes} {offset : ℕ} {members : List Member}

theorem Member.length_encode (m : Member) : m.encode.length = m.toFixedPart.size := by
  unfold Member.encode FixedPart.size
  rw [List.length_append, List.length_append]
  unfold CentralHeader.encode
  rw [List.length_append, FixedPart.length_encode, m.nameLength_eq, m.extraLength_eq, m.commentLength_eq]
  omega

/-- The headers stand where the directory does. -/
theorem directory_of_at (h : At bytes offset (directoryOf members)) :
    Directory bytes offset (members.map Member.toCentralHeader) := by
  induction members generalizing offset with
  | nil => exact .nil
  | cons m rest ih =>
    unfold directoryOf at h
    rw [List.flatMap_cons] at h
    obtain ⟨hm, hrest⟩ := At.append_iff.mp h
    rw [Member.length_encode] at hrest
    exact .cons (At.append_iff.mp hm).1 m.plain (ih hrest)

theorem at_record (a : ZipArchive) : At a.encode a.recordOffset a.record.encode := by
  unfold encode recordOffset
  rw [← List.append_assoc, ← List.length_append]
  exact at_of_append ..

/-- Its own record describes its entries. -/
theorem describes_record (a : ZipArchive) : Describes a.encode a.recordOffset a.entries := by
  refine ⟨a.record, a.at_record, ?_, a.members.map Member.toCentralHeader, ?_, ?_, ?_⟩
  · rw [a.directoryOffset_eq, a.directorySize_eq]
    unfold encode
    simp only [List.length_append]
    omega
  · rw [List.length_map, a.entryCount_eq]
  · rw [a.directoryOffset_eq]
    exact directory_of_at (at_of_append ..)
  · unfold entries
    rw [List.map_map]
    rfl

/-- **The entries of an archive are read back just when it is legible.** -/
theorem readCentralDirectory_encode_iff (a : ZipArchive) : readCentralDirectory a.encode = .ok a.entries ↔ a.Legible := by
  rw [readCentralDirectory_ok_iff]
  refine exists_congr fun offset => and_congr_right fun _ => and_congr_right fun _ => ⟨.inr, ?_⟩
  rintro (rfl | h)
  · exact a.describes_record
  · exact h

end RoundTrip

end ZipArchive

/-- The data of an entry are within the octets. -/
theorem localDataOffset_ok {bytes : Bytes} {entry : ZipCentralEntry} {start : ℕ} (h : localDataOffset bytes entry = .ok start) :
    start + entry.compressedBytes ≤ bytes.length := by
  unfold localDataOffset at h
  dsimp only at h
  split at h
  · cases h
  rename_i hlength
  obtain ⟨signature, hsignature⟩ := readUInt32LE_ok bytes entry.localHeaderOffset (by omega)
  obtain ⟨nameLength, hname⟩ := readUInt16LE_ok bytes (entry.localHeaderOffset + 26) (by omega)
  obtain ⟨extraLength, hextra⟩ := readUInt16LE_ok bytes (entry.localHeaderOffset + 28) (by omega)
  rw [hsignature, hname, hextra] at h
  simp only [bind, Except.bind, pure, Except.pure, throw, throwThe, MonadExceptOf.throw] at h
  split at h
  · cases h
  · split at h
    · cases h
    · rename_i hdata
      cases h
      exact Nat.not_lt.mp hdata

/-- **The reader is total, and what it reads of an archive is what was written just when the archive is legible**: it
never reads outside of the octets, and what it does not read it refuses. -/
theorem reader_total_and_faithful (bytes : Bytes) (entry : ZipCentralEntry) (a : ZipArchive) :
    ((∃ entries, readCentralDirectory bytes = .ok entries) ∨
      ∃ failure, readCentralDirectory bytes = .error failure ∧ failure.IsRefusal) ∧
    ((∃ start, localDataOffset bytes entry = .ok start ∧ start + entry.compressedBytes ≤ bytes.length) ∨
      ∃ failure, localDataOffset bytes entry = .error failure ∧ failure.IsRefusal) ∧
    (readCentralDirectory a.encode = .ok a.entries ↔ a.Legible) := by
  refine ⟨?_, ?_, a.readCentralDirectory_encode_iff⟩
  · cases h : readCentralDirectory bytes with
    | ok entries => exact .inl ⟨entries, rfl⟩
    | error failure => exact .inr ⟨failure, rfl, readCentralDirectory_error h⟩
  · cases h : localDataOffset bytes entry with
    | ok start => exact .inl ⟨start, rfl, localDataOffset_ok h⟩
    | error failure => exact .inr ⟨failure, rfl, localDataOffset_error h⟩

/-- One member of the name `a`, and a comment that is an end record itself, of no entries. -/
def commented : ZipArchive where
  body := []
  members := [{
    versionMadeBy := 20, versionNeeded := 20, flags := 0, compressionMethod := 0, time := 0, date := 0, crc := 0,
    compressedBytes := 0, uncompressedBytes := 0, nameLength := 1, extraLength := 0, commentLength := 0, diskStart := 0,
    internalAttributes := 0, externalAttributes := 0, localHeaderOffset := 0, name := [0x61], nameLength_eq := rfl,
    extra := [], comment := [], extraLength_eq := rfl, commentLength_eq := rfl, plain := by decide }]
  comment := le32 0x06054b50 ++ List.replicate 18 0
  record := ⟨0, 0, 1, 1, 47, 0, 22⟩
  entryCount_eq := rfl
  directorySize_eq := rfl
  directoryOffset_eq := rfl
  commentLength_eq := rfl

/-- The record in the comment is taken for the end of the archive. -/
theorem comment_hides_members : ¬ ∀ a : ZipArchive, readCentralDirectory a.encode = .ok a.entries := by
  intro h
  have hread : readCentralDirectory commented.encode = .ok [] := by rfl
  have hlengths := congrArg List.length (Except.ok.inj (hread.symm.trans (h commented)))
  exact absurd hlengths (by decide)

end WebAudit.Archive
