import WebAudit.Archive.Zip
import WebAudit.Lib.Layout

/-!
# What an archive is encoded as

The layout of the directory of a zip and of the record at its end, and what `readCentralDirectory`
gives for any octets, in these terms. It finds the last signature of an end record that has room behind it.
-/

namespace WebAudit.Archive

open WebAudit.Lib WebAudit.Lib.Uri

/-! ### Reads -/

section Reads

variable {bytes : Bytes} {offset n : ℕ}

theorem readUInt16LE_of_at {v : UInt16} (h : At bytes offset (le16 v)) : readUInt16LE bytes offset = .ok v.toNat := by
  have hlength := h.length_le
  rw [length_le16] at hlength
  have h0 := h.getD (k := 0) (by rw [length_le16]; decide) 0
  have h1 := h.getD (k := 1) (by rw [length_le16]; decide) 0
  rw [Nat.add_zero] at h0
  unfold readUInt16LE octetAt
  rw [if_pos hlength, h0, h1]
  exact congrArg Except.ok (le16_value v)

theorem readUInt32LE_of_at {v : UInt32} (h : At bytes offset (le32 v)) : readUInt32LE bytes offset = .ok v.toNat := by
  have hlength := h.length_le
  rw [length_le32] at hlength
  have h0 := h.getD (k := 0) (by rw [length_le32]; decide) 0
  have h1 := h.getD (k := 1) (by rw [length_le32]; decide) 0
  have h2 := h.getD (k := 2) (by rw [length_le32]; decide) 0
  have h3 := h.getD (k := 3) (by rw [length_le32]; decide) 0
  rw [Nat.add_zero] at h0
  unfold readUInt32LE octetAt
  rw [if_pos hlength, h0, h1, h2, h3]
  exact congrArg Except.ok (le32_value v)

/-- A number of two octets stands wherever there is room. -/
theorem exists_at16 (h : offset + 2 ≤ bytes.length) : ∃ v : UInt16, At bytes offset (le16 v) := by
  have hat := at_take_drop h
  have hlength : ((bytes.drop offset).take 2).length = 2 := List.length_take_of_le (by rw [List.length_drop]; omega)
  obtain ⟨a, b, hab⟩ := List.length_eq_two.mp hlength
  obtain ⟨v, hv⟩ := exists_le16 a b
  exact ⟨v, by rwa [hv, ← hab]⟩

theorem exists_at32 (h : offset + 4 ≤ bytes.length) : ∃ v : UInt32, At bytes offset (le32 v) := by
  have hat := at_take_drop h
  have hlength : ((bytes.drop offset).take 4).length = 4 := List.length_take_of_le (by rw [List.length_drop]; omega)
  obtain ⟨a, b, c, d, habcd⟩ : ∃ a b c d, (bytes.drop offset).take 4 = [a, b, c, d] := by
    generalize (bytes.drop offset).take 4 = octets at hlength
    rcases octets with _ | ⟨a, _ | ⟨b, _ | ⟨c, _ | ⟨d, _ | ⟨e, rest⟩⟩⟩⟩⟩
    all_goals first | exact ⟨_, _, _, _, rfl⟩ | simp at hlength
  obtain ⟨v, hv⟩ := exists_le32 a b c d
  exact ⟨v, by rwa [hv, ← habcd]⟩

end Reads

/-! ### Records -/

/-- The fixed part of an entry of the directory. -/
structure FixedPart where
  versionMadeBy : UInt16
  versionNeeded : UInt16
  flags : UInt16
  compressionMethod : UInt16
  time : UInt16
  date : UInt16
  crc : UInt32
  compressedBytes : UInt32
  uncompressedBytes : UInt32
  nameLength : UInt16
  extraLength : UInt16
  commentLength : UInt16
  diskStart : UInt16
  internalAttributes : UInt16
  externalAttributes : UInt32
  localHeaderOffset : UInt32

namespace FixedPart

def encode (f : FixedPart) : Bytes :=
  le32 0x02014b50 ++ (le16 f.versionMadeBy ++ (le16 f.versionNeeded ++ (le16 f.flags ++ (le16 f.compressionMethod ++
    (le16 f.time ++ (le16 f.date ++ (le32 f.crc ++ (le32 f.compressedBytes ++ (le32 f.uncompressedBytes ++ (le16 f.nameLength ++
      (le16 f.extraLength ++ (le16 f.commentLength ++ (le16 f.diskStart ++ (le16 f.internalAttributes ++
        (le32 f.externalAttributes ++ le32 f.localHeaderOffset)))))))))))))))

theorem length_encode (f : FixedPart) : f.encode.length = 46 := by
  unfold encode
  simp only [List.length_append, length_le16, length_le32]

/-- A value that stands for one in a Zip64 field. -/
def Sentinel (f : FixedPart) : Prop :=
  f.compressedBytes.toNat = 0xffffffff ∨ f.uncompressedBytes.toNat = 0xffffffff ∨ f.localHeaderOffset.toNat = 0xffffffff

instance : DecidablePred Sentinel := fun f => by
  unfold Sentinel
  infer_instance

/-- What it says of a member of this name. -/
def entry (f : FixedPart) (name : Bytes) : ZipCentralEntry :=
  let rawPath := name.map UInt8.toNat
  let unixMode := if f.versionMadeBy.toNat / 0x100 = 3 then some (f.externalAttributes.toNat / 0x10000) else none
  { rawPath, unixMode
    compressedBytes := f.compressedBytes.toNat
    uncompressedBytes := f.uncompressedBytes.toNat
    compressionMethod := f.compressionMethod.toNat
    localHeaderOffset := f.localHeaderOffset.toNat
    isDirectory := endsWith rawPath (ascii "/") || unixMode.any fun mode => fileType mode == 0x4000 }

/-- From one entry to the next. -/
def size (f : FixedPart) : ℕ := 46 + f.nameLength.toNat + f.extraLength.toNat + f.commentLength.toNat

end FixedPart

/-- With its name. -/
structure CentralHeader extends FixedPart where
  name : Bytes
  nameLength_eq : nameLength.toNat = name.length

namespace CentralHeader

def encode (h : CentralHeader) : Bytes := h.toFixedPart.encode ++ h.name

def entry (h : CentralHeader) : ZipCentralEntry := h.toFixedPart.entry h.name

end CentralHeader

/-- The record at the end, without the comment. -/
structure EndRecord where
  disk : UInt16
  directoryDisk : UInt16
  entriesHere : UInt16
  entryCount : UInt16
  directorySize : UInt32
  directoryOffset : UInt32
  commentLength : UInt16

namespace EndRecord

def encode (r : EndRecord) : Bytes :=
  le32 0x06054b50 ++ (le16 r.disk ++ (le16 r.directoryDisk ++ (le16 r.entriesHere ++ (le16 r.entryCount ++
    (le32 r.directorySize ++ (le32 r.directoryOffset ++ le16 r.commentLength))))))

end EndRecord

/-! ### Entries -/

section Entries

variable {bytes : Bytes} {index cursor next offset : ℕ} {entry : ZipCentralEntry} {f : FixedPart}

/-- Where there is room for them, some numbers stand in the fields. -/
theorem exists_fixedPart (h : cursor + 46 ≤ bytes.length) (hsignature : At bytes cursor (le32 0x02014b50)) :
    ∃ f : FixedPart, At bytes cursor f.encode := by
  have h16 {k : ℕ} (hk : k + 2 ≤ 46) : ∃ v : UInt16, At bytes (cursor + k) (le16 v) := exists_at16 (by omega)
  have h32 {k : ℕ} (hk : k + 4 ≤ 46) : ∃ v : UInt32, At bytes (cursor + k) (le32 v) := exists_at32 (by omega)
  obtain ⟨versionMadeBy, h4⟩ := h16 (k := 4) (by decide)
  obtain ⟨versionNeeded, h6⟩ := h16 (k := 6) (by decide)
  obtain ⟨flags, h8⟩ := h16 (k := 8) (by decide)
  obtain ⟨compressionMethod, h10⟩ := h16 (k := 10) (by decide)
  obtain ⟨time, h12⟩ := h16 (k := 12) (by decide)
  obtain ⟨date, h14⟩ := h16 (k := 14) (by decide)
  obtain ⟨crc, h16'⟩ := h32 (k := 16) (by decide)
  obtain ⟨compressedBytes, h20⟩ := h32 (k := 20) (by decide)
  obtain ⟨uncompressedBytes, h24⟩ := h32 (k := 24) (by decide)
  obtain ⟨nameLength, h28⟩ := h16 (k := 28) (by decide)
  obtain ⟨extraLength, h30⟩ := h16 (k := 30) (by decide)
  obtain ⟨commentLength, h32'⟩ := h16 (k := 32) (by decide)
  obtain ⟨diskStart, h34⟩ := h16 (k := 34) (by decide)
  obtain ⟨internalAttributes, h36⟩ := h16 (k := 36) (by decide)
  obtain ⟨externalAttributes, h38⟩ := h32 (k := 38) (by decide)
  obtain ⟨localHeaderOffset, h42⟩ := h32 (k := 42) (by decide)
  refine ⟨⟨versionMadeBy, versionNeeded, flags, compressionMethod, time, date, crc, compressedBytes, uncompressedBytes,
    nameLength, extraLength, commentLength, diskStart, internalAttributes, externalAttributes, localHeaderOffset⟩, ?_⟩
  unfold FixedPart.encode
  simp only [At.append_iff, length_le16, length_le32, Nat.add_assoc, Nat.reduceAdd]
  exact ⟨hsignature, h4, h6, h8, h10, h12, h14, h16', h20, h24, h28, h30, h32', h34, h36, h38, h42⟩

/-- **What is read where the fixed part of an entry stands.** -/
theorem readEntry_at (hat : At bytes cursor f.encode) : readEntry bytes index cursor =
    if f.Sentinel then
      .error (malformed ("central directory entry " ++ toString index ++ " carries a Zip64 sentinel value with no Zip64 " ++
        "locator present; this is not a well-formed 32-bit zip entry"))
    else if bytes.length < cursor + 46 + f.nameLength.toNat then
      .error (malformed ("central directory entry " ++ toString index ++ " has a truncated name"))
    else .ok (f.entry ((bytes.drop (cursor + 46)).take f.nameLength.toNat), cursor + f.size) := by
  have hlength := hat.length_le
  rw [f.length_encode] at hlength
  unfold FixedPart.encode at hat
  simp only [At.append_iff, length_le16, length_le32, Nat.add_assoc, Nat.reduceAdd] at hat
  obtain ⟨hsignature, h4, -, -, h10, -, -, -, h20, h24, h28, h30, h32, -, -, h38, h42⟩ := hat
  unfold readEntry
  rw [if_neg (Nat.not_lt.mpr hlength), readUInt32LE_of_at hsignature, readUInt16LE_of_at h4, readUInt16LE_of_at h10,
    readUInt32LE_of_at h20, readUInt32LE_of_at h24, readUInt16LE_of_at h28, readUInt16LE_of_at h30, readUInt16LE_of_at h32,
    readUInt32LE_of_at h38, readUInt32LE_of_at h42]
  simp only [bind, Except.bind, pure, Except.pure, throw, throwThe, MonadExceptOf.throw]
  rw [if_neg (show ¬ (0x02014b50 : UInt32).toNat ≠ signatureCentralEntry by decide)]
  by_cases hsentinel : f.Sentinel
  · rw [if_pos hsentinel]
    unfold FixedPart.Sentinel at hsentinel
    rw [if_pos hsentinel]
  · rw [if_neg hsentinel]
    unfold FixedPart.Sentinel at hsentinel
    rw [if_neg hsentinel]
    by_cases hname : bytes.length < cursor + 46 + f.nameLength.toNat
    · rw [if_pos hname, if_pos hname]
    · rw [if_neg hname, if_neg hname]
      unfold FixedPart.entry FixedPart.size
      simp only [Nat.add_assoc]

/-- Elsewhere an entry is refused. -/
theorem readEntry_elsewhere (index : ℕ) (h : ¬ ∃ f : FixedPart, At bytes cursor f.encode) :
    ∃ detail, readEntry bytes index cursor = .error (malformed detail) := by
  by_cases hlength : bytes.length < cursor + 46
  · refine ⟨"central directory entry " ++ toString index ++ " is truncated", ?_⟩
    unfold readEntry
    rw [if_pos hlength]
    rfl
  · obtain ⟨v, hv⟩ : ∃ v : UInt32, At bytes cursor (le32 v) := exists_at32 (by omega)
    have hsignature : v.toNat ≠ signatureCentralEntry := by
      intro heq
      obtain rfl : v = 0x02014b50 := UInt32.toNat_inj.mp heq
      exact h (exists_fixedPart (by omega) hv)
    refine ⟨"central directory entry " ++ toString index ++ " has a bad signature", ?_⟩
    unfold readEntry
    rw [if_neg hlength, readUInt32LE_of_at hv]
    simp only [bind, Except.bind, pure, Except.pure, throw, throwThe, MonadExceptOf.throw]
    rw [if_pos hsignature]

theorem readEntry_error {failure : Failure} (h : readEntry bytes index cursor = .error failure) : failure.IsRefusal := by
  by_cases hat : ∃ f : FixedPart, At bytes cursor f.encode
  · obtain ⟨f, hf⟩ := hat
    rw [readEntry_at hf] at h
    split_ifs at h
    · cases h
      exact ⟨_, rfl⟩
    · cases h
      exact ⟨_, rfl⟩
  · obtain ⟨detail, hdetail⟩ := readEntry_elsewhere index hat
    rw [hdetail] at h
    cases h
    exact ⟨_, rfl⟩

/-- **An entry is read where a header with its name stands, and nowhere else.** -/
theorem readEntry_ok_iff : readEntry bytes index cursor = .ok (entry, next) ↔
    ∃ h : CentralHeader, At bytes cursor h.encode ∧ ¬ h.Sentinel ∧ entry = h.entry ∧ next = cursor + h.size := by
  constructor
  · intro h
    by_cases hat : ∃ f : FixedPart, At bytes cursor f.encode
    · obtain ⟨f, hf⟩ := hat
      rw [readEntry_at hf] at h
      split_ifs at h with hsentinel hname
      cases h
      have hlength : ((bytes.drop (cursor + 46)).take f.nameLength.toNat).length = f.nameLength.toNat :=
        List.length_take_of_le (by rw [List.length_drop]; omega)
      refine ⟨⟨f, _, hlength.symm⟩, At.append_iff.mpr ⟨hf, ?_⟩, hsentinel, rfl, rfl⟩
      rw [f.length_encode]
      exact at_take_drop (by omega)
    · obtain ⟨detail, hdetail⟩ := readEntry_elsewhere index hat
      rw [hdetail] at h
      cases h
  · rintro ⟨h, hat, hsentinel, rfl, rfl⟩
    obtain ⟨hfixed, hname⟩ := At.append_iff.mp hat
    rw [h.length_encode] at hname
    have hroom := hname.length_le
    rw [readEntry_at hfixed, if_neg hsentinel, if_neg (by rw [h.nameLength_eq]; omega), h.nameLength_eq, hname.take_drop]
    rfl

/-- From an offset on these headers stand, each with so much room behind it as it says. -/
inductive Directory (bytes : Bytes) : ℕ → List CentralHeader → Prop where
  | nil {offset : ℕ} : Directory bytes offset []
  | cons {offset : ℕ} {h : CentralHeader} {rest : List CentralHeader} (hat : At bytes offset h.encode) (hsentinel : ¬ h.Sentinel)
      (hrest : Directory bytes (offset + h.size) rest) : Directory bytes offset (h :: rest)

theorem readEntries_ok_iff {n : ℕ} {entries : List ZipCentralEntry} : readEntries bytes n index cursor = .ok entries ↔
    ∃ hs, hs.length = n ∧ Directory bytes cursor hs ∧ entries = hs.map CentralHeader.entry := by
  induction n generalizing index cursor entries with
  | zero =>
    constructor
    · intro h
      cases h
      exact ⟨[], rfl, .nil, rfl⟩
    · rintro ⟨hs, hlength, -, rfl⟩
      rw [List.length_eq_zero_iff.mp hlength]
      rfl
  | succ n ih =>
    unfold readEntries
    rw [bind_ok_iff]
    constructor
    · rintro ⟨⟨entry, next⟩, hentry, hrest⟩
      obtain ⟨entries', hentries, heq⟩ := bind_ok_iff.mp hrest
      cases heq
      obtain ⟨h, hat, hsentinel, rfl, rfl⟩ := readEntry_ok_iff.mp hentry
      obtain ⟨hs, hlength, hdirectory, rfl⟩ := ih.mp hentries
      exact ⟨h :: hs, by rw [List.length_cons, hlength], .cons hat hsentinel hdirectory, rfl⟩
    · rintro ⟨hs, hlength, hdirectory, rfl⟩
      cases hdirectory with
      | nil => cases hlength
      | cons hat hsentinel hrest =>
        refine ⟨_, readEntry_ok_iff.mpr ⟨_, hat, hsentinel, rfl, rfl⟩, bind_ok_iff.mpr ⟨_, ih.mpr ⟨_, ?_, hrest, rfl⟩, rfl⟩⟩
        exact Nat.succ.inj hlength

theorem readEntries_error {n : ℕ} {failure : Failure} (h : readEntries bytes n index cursor = .error failure) :
    failure.IsRefusal := by
  induction n generalizing index cursor with
  | zero => cases h
  | succ n ih =>
    unfold readEntries at h
    cases hentry : readEntry bytes index cursor with
    | error e =>
      rw [hentry] at h
      cases h
      exact readEntry_error hentry
    | ok p =>
      rw [hentry] at h
      cases hrest : readEntries bytes n (index + 1) p.2 with
      | error e =>
        simp only [bind, Except.bind, hrest] at h
        cases h
        exact ih hrest
      | ok entries =>
        simp only [bind, Except.bind, hrest] at h
        cases h

end Entries

/-! ### The end -/

/-- The last signature of an end record that has room for one behind it, and is near enough to the end. -/
structure EndsAt (bytes : Bytes) (offset : ℕ) : Prop where
  room : offset + 22 ≤ bytes.length
  near : bytes.length ≤ offset + eocdMaxSearchBytes
  signature : At bytes offset (le32 0x06054b50)
  last : ∀ later, offset < later → later + 22 ≤ bytes.length → ¬ At bytes later (le32 0x06054b50)

/-- A Zip64 locator stands before that place. -/
def LocatedBefore (bytes : Bytes) (offset : ℕ) : Prop := 20 ≤ offset ∧ At bytes (offset - 20) (le32 0x07064b50)

instance (bytes : Bytes) (offset : ℕ) : Decidable (LocatedBefore bytes offset) := by
  unfold LocatedBefore
  infer_instance

/-- The end record at this place describes a directory with these entries. -/
def Describes (bytes : Bytes) (offset : ℕ) (entries : List ZipCentralEntry) : Prop :=
  ∃ r : EndRecord, At bytes offset r.encode ∧ r.directoryOffset.toNat + r.directorySize.toNat ≤ bytes.length ∧
    ∃ hs, hs.length = r.entryCount.toNat ∧ Directory bytes r.directoryOffset.toNat hs ∧ entries = hs.map CentralHeader.entry

section Ends

variable {bytes : Bytes} {offset searchFrom found : ℕ} {entries : List ZipCentralEntry} {failure : Failure}

/-- A signature is read where it stands only. -/
theorem readUInt32LE_ne {v : UInt32} (h : offset + 4 ≤ bytes.length) (hno : ¬ At bytes offset (le32 v)) :
    ∃ n, readUInt32LE bytes offset = .ok n ∧ n ≠ v.toNat := by
  obtain ⟨u, hu⟩ := exists_at32 h
  refine ⟨u.toNat, readUInt32LE_of_at hu, fun heq => hno ?_⟩
  rwa [← UInt32.toNat_inj.mp heq]

/-- **The search finds the last signature, or refuses.** -/
theorem findEocdFrom_spec (h : offset + 4 ≤ bytes.length) :
    (∃ found, findEocdFrom bytes searchFrom offset = .ok found ∧ searchFrom ≤ found ∧ found ≤ offset ∧
      At bytes found (le32 0x06054b50) ∧ ∀ later, found < later → later ≤ offset → ¬ At bytes later (le32 0x06054b50)) ∨
    (∃ failure, findEocdFrom bytes searchFrom offset = .error failure ∧ failure.IsRefusal ∧
      ∀ place, searchFrom ≤ place → place ≤ offset → ¬ At bytes place (le32 0x06054b50)) := by
  induction offset with
  | zero =>
    unfold findEocdFrom
    split
    · exact .inr ⟨_, rfl, ⟨_, rfl⟩, fun place hplace hle => absurd hle (by omega)⟩
    · by_cases hat : At bytes 0 (le32 0x06054b50)
      · rw [readUInt32LE_of_at hat]
        exact .inl ⟨0, rfl, by omega, le_rfl, hat, fun later hlt hle => absurd hle (by omega)⟩
      · obtain ⟨n, hn, hne⟩ : ∃ n, readUInt32LE bytes _ = .ok n ∧ n ≠ signatureEocd := readUInt32LE_ne h hat
        rw [hn]
        dsimp only
        rw [if_neg hne]
        exact .inr ⟨_, rfl, ⟨_, rfl⟩, fun place _ hle => by rwa [Nat.le_zero.mp hle]⟩
  | succ offset ih =>
    unfold findEocdFrom
    split
    · exact .inr ⟨_, rfl, ⟨_, rfl⟩, fun place hplace hle => absurd hle (by omega)⟩
    · by_cases hat : At bytes (offset + 1) (le32 0x06054b50)
      · rw [readUInt32LE_of_at hat]
        exact .inl ⟨offset + 1, rfl, by omega, le_rfl, hat, fun later hlt hle => absurd hle (by omega)⟩
      · obtain ⟨n, hn, hne⟩ : ∃ n, readUInt32LE bytes _ = .ok n ∧ n ≠ signatureEocd := readUInt32LE_ne h hat
        rw [hn]
        dsimp only
        rw [if_neg hne]
        rcases ih (by omega) with ⟨found, hfound, hfrom, hle, hsignature, hlast⟩ | ⟨failure, hfailure, hrefusal, hnone⟩
        · refine .inl ⟨found, hfound, hfrom, by omega, hsignature, fun later hlt hlater => ?_⟩
          rcases Nat.lt_or_eq_of_le hlater with hlater | rfl
          · exact hlast later hlt (by omega)
          · exact hat
        · refine .inr ⟨failure, hfailure, hrefusal, fun place hplace hle => ?_⟩
          rcases Nat.lt_or_eq_of_le hle with hle | rfl
          · exact hnone place hplace (by omega)
          · exact hat

theorem findEocdOffset_spec (h : 22 ≤ bytes.length) :
    (∃ found, findEocdOffset bytes = .ok found ∧ EndsAt bytes found) ∨
    (∃ failure, findEocdOffset bytes = .error failure ∧ failure.IsRefusal ∧ ∀ offset, ¬ EndsAt bytes offset) := by
  have hroom : bytes.length - eocdFixedBytes + 4 ≤ bytes.length := by
    unfold eocdFixedBytes
    omega
  unfold findEocdOffset
  rcases findEocdFrom_spec hroom with
    ⟨found, hfound, hfrom, hle, hsignature, hlast⟩ | ⟨failure, hfailure, hrefusal, hnone⟩
  · unfold eocdFixedBytes at hle hlast
    exact .inl ⟨found, hfound, ⟨by omega, by omega, hsignature, fun later hlt hroom => hlast later hlt (by omega)⟩⟩
  · unfold eocdFixedBytes at hnone
    exact .inr ⟨failure, hfailure, hrefusal, fun offset hends =>
      hnone offset (by have := hends.near; omega) (by have := hends.room; omega) hends.signature⟩

theorem EndsAt.unique {other : ℕ} (h : EndsAt bytes offset) (h' : EndsAt bytes other) : offset = other := by
  rcases Nat.lt_trichotomy offset other with hlt | heq | hlt
  · exact absurd h'.signature (h.last other hlt h'.room)
  · exact heq
  · exact absurd h.signature (h'.last offset hlt h.room)

/-- What is read once the end record is found. -/
theorem readCentralDirectory_at {r : EndRecord} (hends : EndsAt bytes offset) (hat : At bytes offset r.encode) :
    readCentralDirectory bytes =
      if LocatedBefore bytes offset then
        .error (.refused ⟨.unsupportedFormat, "this is a Zip64 archive; its capacity is only needed past the published size and " ++
          "entry-count limits, so it is refused rather than parsed", none, none, none⟩)
      else if bytes.length < r.directoryOffset.toNat + r.directorySize.toNat then
        .error (malformed "the central directory extends past the end of the file")
      else readEntries bytes r.entryCount.toNat 0 r.directoryOffset.toNat := by
  have hroom := hends.room
  have hfound : findEocdOffset bytes = .ok offset := by
    have hlength : 22 ≤ bytes.length := by omega
    rcases findEocdOffset_spec hlength with ⟨found, hfound, hends'⟩ | ⟨-, -, -, hnone⟩
    · rw [hfound, hends.unique hends']
    · exact absurd hends (hnone offset)
  unfold EndRecord.encode at hat
  simp only [At.append_iff, length_le16, length_le32, Nat.add_assoc, Nat.reduceAdd] at hat
  obtain ⟨-, -, -, -, h10, h12, h16, -⟩ := hat
  unfold readCentralDirectory
  rw [if_neg (show ¬ bytes.length < eocdFixedBytes by unfold eocdFixedBytes; omega), hfound]
  simp only [bind, Except.bind, throw, throwThe, MonadExceptOf.throw]
  rw [readUInt16LE_of_at h10, readUInt32LE_of_at h12, readUInt32LE_of_at h16]
  dsimp only
  by_cases hfar : 20 ≤ offset
  · rw [if_pos hfar]
    by_cases hlocator : At bytes (offset - 20) (le32 0x07064b50)
    · have hbefore : LocatedBefore bytes offset := ⟨hfar, hlocator⟩
      rw [if_pos hbefore, readUInt32LE_of_at hlocator]
      rfl
    · obtain ⟨n, hn, hne⟩ : ∃ n, readUInt32LE bytes (offset - 20) = .ok n ∧ n ≠ signatureZip64EocdLocator :=
        readUInt32LE_ne (by omega) hlocator
      have hbefore : ¬ LocatedBefore bytes offset := fun h => hlocator h.2
      rw [if_neg hbefore, hn]
      dsimp only
      rw [if_neg hne]
  · have hbefore : ¬ LocatedBefore bytes offset := fun h => hfar h.1
    rw [if_neg hfar, if_neg hbefore]

theorem exists_endRecord (h : EndsAt bytes offset) : ∃ r : EndRecord, At bytes offset r.encode := by
  have hroom := h.room
  obtain ⟨disk, h4⟩ : ∃ v : UInt16, At bytes (offset + 4) (le16 v) := exists_at16 (by omega)
  obtain ⟨directoryDisk, h6⟩ : ∃ v : UInt16, At bytes (offset + 6) (le16 v) := exists_at16 (by omega)
  obtain ⟨entriesHere, h8⟩ : ∃ v : UInt16, At bytes (offset + 8) (le16 v) := exists_at16 (by omega)
  obtain ⟨entryCount, h10⟩ : ∃ v : UInt16, At bytes (offset + 10) (le16 v) := exists_at16 (by omega)
  obtain ⟨directorySize, h12⟩ : ∃ v : UInt32, At bytes (offset + 12) (le32 v) := exists_at32 (by omega)
  obtain ⟨directoryOffset, h16⟩ : ∃ v : UInt32, At bytes (offset + 16) (le32 v) := exists_at32 (by omega)
  obtain ⟨commentLength, h20⟩ : ∃ v : UInt16, At bytes (offset + 20) (le16 v) := exists_at16 (by omega)
  refine ⟨⟨disk, directoryDisk, entriesHere, entryCount, directorySize, directoryOffset, commentLength⟩, ?_⟩
  unfold EndRecord.encode
  simp only [At.append_iff, length_le16, length_le32, Nat.add_assoc, Nat.reduceAdd]
  exact ⟨h.signature, h4, h6, h8, h10, h12, h16, h20⟩

/-- Where no end record is found, the octets are refused. -/
theorem readCentralDirectory_none (h : ∀ offset, ¬ EndsAt bytes offset) :
    ∃ failure, readCentralDirectory bytes = .error failure ∧ failure.IsRefusal := by
  unfold readCentralDirectory
  by_cases hlength : bytes.length < eocdFixedBytes
  · rw [if_pos hlength]
    exact ⟨_, rfl, _, rfl⟩
  · rw [if_neg hlength]
    rcases findEocdOffset_spec (Nat.not_lt.mp hlength) with ⟨found, -, hends⟩ | ⟨failure, hfailure, hrefusal, -⟩
    · exact absurd hends (h found)
    · rw [hfailure]
      exact ⟨failure, rfl, hrefusal⟩

/-- **What is read of any octets**: the directory that the last end record describes. -/
theorem readCentralDirectory_ok_iff : readCentralDirectory bytes = .ok entries ↔
    ∃ offset, EndsAt bytes offset ∧ ¬ LocatedBefore bytes offset ∧ Describes bytes offset entries := by
  constructor
  · intro h
    by_cases hends : ∃ offset, EndsAt bytes offset
    · obtain ⟨offset, hends⟩ := hends
      obtain ⟨r, hr⟩ := exists_endRecord hends
      rw [readCentralDirectory_at hends hr] at h
      split_ifs at h with hlocator hsize
      exact ⟨offset, hends, hlocator, r, hr, Nat.not_lt.mp hsize, readEntries_ok_iff.mp h⟩
    · obtain ⟨failure, hfailure, -⟩ := readCentralDirectory_none fun offset h => hends ⟨offset, h⟩
      rw [hfailure] at h
      cases h
  · rintro ⟨offset, hends, hlocator, r, hr, hsize, hdirectory⟩
    rw [readCentralDirectory_at hends hr, if_neg hlocator, if_neg (Nat.not_lt.mpr hsize)]
    exact readEntries_ok_iff.mpr hdirectory

theorem readCentralDirectory_error (h : readCentralDirectory bytes = .error failure) : failure.IsRefusal := by
  by_cases hends : ∃ offset, EndsAt bytes offset
  · obtain ⟨offset, hends⟩ := hends
    obtain ⟨r, hr⟩ := exists_endRecord hends
    rw [readCentralDirectory_at hends hr] at h
    split_ifs at h
    · cases h
      exact ⟨_, rfl⟩
    · cases h
      exact ⟨_, rfl⟩
    · exact readEntries_error h
  · obtain ⟨_, hfailure, hrefusal⟩ := readCentralDirectory_none fun offset h => hends ⟨offset, h⟩
    rw [hfailure] at h
    cases h
    exact hrefusal

end Ends

end WebAudit.Archive
