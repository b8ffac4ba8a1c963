import WebAudit.Archive.Zip
import WebAudit.Lib.Splits

/-!
# Normal forms of paths

`normaliseEntryPath` looks for a drive letter before it drops the segments that say nothing, and `extractArchive` drops
leading segments of what is normalised. So a segment such as `C:` may come to stand in front.
-/

namespace WebAudit.Archive

open WebAudit.Lib WebAudit.Lib.Uri

/-- The path with forward slashes. -/
def unify (rawPath : Text) : Text := rawPath.map fun u => if u = backslash then slash else u

/-- What a path of the pipeline is like. -/
structure Canonical (path : Text) : Prop where
  relative : startsWith path [slash] = false
  segments : ∀ segment ∈ path.splitOn slash, segment ≠ [] ∧ segment ≠ [dot] ∧ segment ≠ [dot, dot]
  noBackslash : backslash ∉ path
  noNul : 0 ∉ path
  noDrive : driveLetter path = false

/-- In normal form, and left as it is. -/
def Stable (segments : List Text) : Prop := Canonical (join segments) ∧ normaliseEntryPath (join segments) = .ok segments

/-- What a segment of a normal form is like. -/
structure Plain (segment : Text) : Prop where
  kept : segment ≠ [] ∧ segment ≠ [dot]
  notUp : segment ≠ [dot, dot]
  noSlash : slash ∉ segment
  noBackslash : backslash ∉ segment
  noNul : 0 ∉ segment

section Paths

variable {rawPath segment : Text} {segments : List Text} {u : ℕ}

theorem backslash_not_mem_unify (rawPath : Text) : backslash ∉ unify rawPath := by
  intro h
  obtain ⟨u, -, hu⟩ := List.mem_map.mp h
  split_ifs at hu with hback
  · cases hu
  · exact hback hu

theorem unify_of_not_mem (h : backslash ∉ rawPath) : unify rawPath = rawPath := by
  have hletters : ∀ u ∈ rawPath, (if u = backslash then slash else u) = id u := by
    intro u hu
    rw [if_neg fun heq : u = backslash => h (heq ▸ hu)]
    rfl
  exact (List.map_congr_left hletters).trans (List.map_id _)

/-- **What is accepted** has no NUL, names no absolute location, and leads nowhere up. -/
theorem normaliseEntryPath_iff : normaliseEntryPath rawPath = .ok segments ↔
    0 ∉ rawPath ∧ startsWith (unify rawPath) [slash] = false ∧ driveLetter (unify rawPath) = false ∧
      segments = ((unify rawPath).splitOn slash).filter (fun segment => segment != [] && segment != [dot]) ∧
      [dot, dot] ∉ segments ∧ segments ≠ [] := by
  unfold normaliseEntryPath
  rw [show (rawPath.map fun u => if u = backslash then slash else u) = unify rawPath from rfl]
  dsimp only
  split_ifs with hnul habsolute hup hempty
  · exact ⟨nofun, fun h => absurd (List.contains_iff_mem.mp hnul) h.1⟩
  · refine ⟨nofun, fun h => ?_⟩
    rw [h.2.1, h.2.2.1] at habsolute
    cases habsolute
  · exact ⟨nofun, fun h => absurd (h.2.2.2.1 ▸ List.contains_iff_mem.mp hup) h.2.2.2.2.1⟩
  · exact ⟨nofun, fun h => absurd (h.2.2.2.1.trans hempty) h.2.2.2.2.2⟩
  · rw [Bool.or_eq_true, not_or, Bool.not_eq_true, Bool.not_eq_true] at habsolute
    constructor
    · intro h
      cases h
      exact ⟨fun h => hnul (List.contains_iff_mem.mpr h), habsolute.1, habsolute.2, rfl, fun h => hup (List.contains_iff_mem.mpr h), hempty⟩
    · rintro ⟨-, -, -, rfl, -, -⟩
      rfl

theorem normaliseEntryPath_plain (h : normaliseEntryPath rawPath = .ok segments) : ∀ segment ∈ segments, Plain segment := by
  rw [normaliseEntryPath_iff] at h
  obtain ⟨hnul, -, -, rfl, hup, -⟩ := h
  intro segment hmem
  obtain ⟨hsplit, hkept⟩ := List.mem_filter.mp hmem
  obtain ⟨hslash, hletters⟩ := of_mem_splitOn hsplit
  refine ⟨by simpa using hkept, fun heq => hup (heq ▸ hmem), hslash, fun hback => ?_, fun hzero => ?_⟩
  · exact backslash_not_mem_unify rawPath (hletters _ hback)
  · obtain ⟨u, hu, heq⟩ := List.mem_map.mp (hletters _ hzero)
    split_ifs at heq
    · cases heq
    · exact hnul (heq ▸ hu)

/-- What stands in a joined path stands in a segment, or is a slash. -/
theorem mem_join (h : u ∈ join segments) : u = slash ∨ ∃ segment ∈ segments, u ∈ segment := by
  induction segments with
  | nil => cases h
  | cons segment segments ih =>
    cases segments with
    | nil => exact .inr ⟨segment, List.mem_singleton_self _, by simpa [join, List.intercalate] using h⟩
    | cons next rest =>
      rw [join, List.intercalate_cons_cons, List.append_assoc, List.mem_append] at h
      rcases h with h | h
      · exact .inr ⟨segment, List.mem_cons_self .., h⟩
      · rcases List.mem_append.mp h with h | h
        · exact .inl (List.mem_singleton.mp h)
        · rcases ih h with h | ⟨s, hs, hu⟩
          · exact .inl h
          · exact .inr ⟨s, List.mem_cons_of_mem _ hs, hu⟩

/-- A joined path begins as its first segment does. -/
theorem join_cons (segment : Text) (segments : List Text) : ∃ rest, join (segment :: segments) = segment ++ rest ∧
    ∀ u ∈ rest.head?, u = slash := by
  cases segments with
  | nil => exact ⟨[], by simp [join, List.intercalate], nofun⟩
  | cons next rest =>
    refine ⟨slash :: join (next :: rest), ?_, fun u hu => (Option.some.inj hu).symm⟩
    rw [join, List.intercalate_cons_cons, List.append_assoc]
    rfl

theorem driveLetter_cons_cons (u v : ℕ) (rest : Text) :
    driveLetter (u :: v :: rest) = (v == 0x3A && ((0x41 ≤ u && u ≤ 0x5A) || (0x61 ≤ u && u ≤ 0x7A))) := by
  by_cases hv : v = 0x3A
  · subst hv
    rfl
  · unfold driveLetter
    split
    · rename_i heq
      exact absurd (List.cons.inj (List.cons.inj heq).2).1 hv
    · rw [beq_eq_false_iff_ne.mpr hv, Bool.false_and]

/-- There is a drive letter in front when there is one in front of the first segment. -/
theorem driveLetter_join (hne : segment ≠ []) (hslash : slash ∉ segment) (segments : List Text) :
    driveLetter (join (segment :: segments)) = driveLetter segment := by
  obtain ⟨rest, hjoin, hrest⟩ := join_cons segment segments
  rw [hjoin]
  match segment, hne with
  | [u], _ =>
    cases rest with
    | nil => rfl
    | cons v rest =>
      obtain rfl := hrest v rfl
      rfl
  | u :: v :: more, _ => rw [List.cons_append, List.cons_append, driveLetter_cons_cons, driveLetter_cons_cons]

/-- **Plain segments are stable** unless a drive letter is in front. -/
theorem stable_iff (hne : segments ≠ []) (hplain : ∀ segment ∈ segments, Plain segment) :
    Stable segments ↔ ∀ segment ∈ segments.head?, driveLetter segment = false := by
  obtain ⟨first, rest, rfl⟩ := List.exists_cons_of_ne_nil hne
  have hfirst := hplain first (List.mem_cons_self ..)
  have hdrive : driveLetter (join (first :: rest)) = driveLetter first := driveLetter_join hfirst.kept.1 hfirst.noSlash rest
  have hsplit : (join (first :: rest)).splitOn slash = first :: rest :=
    List.splitOn_intercalate slash (fun s hs => (hplain s hs).noSlash) hne
  have hno {u : ℕ} (hu : u ≠ slash) (h : ∀ s ∈ first :: rest, u ∉ s) : u ∉ join (first :: rest) := by
    intro hmem
    rcases mem_join hmem with heq | ⟨s, hs, hmem⟩
    · exact hu heq
    · exact h s hs hmem
  have hback : backslash ∉ join (first :: rest) := hno (by decide) fun s hs => (hplain s hs).noBackslash
  have hnul : 0 ∉ join (first :: rest) := hno (by decide) fun s hs => (hplain s hs).noNul
  have hrelative : startsWith (join (first :: rest)) [slash] = false := by
    obtain ⟨tail, hjoin, -⟩ := join_cons first rest
    obtain ⟨u, more, rfl⟩ := List.exists_cons_of_ne_nil hfirst.kept.1
    rw [hjoin]
    have hu : slash ≠ u := fun heq => hfirst.noSlash (heq ▸ List.mem_cons_self ..)
    simp [startsWith, List.isPrefixOf, hu]
  constructor
  · rintro h segment hsegment
    obtain rfl := Option.some.inj hsegment
    rw [← hdrive]
    exact h.1.noDrive
  · intro h
    have hdrive : driveLetter (join (first :: rest)) = false := hdrive.trans (h first rfl)
    refine ⟨⟨hrelative, fun s hs => ?_, hback, hnul, hdrive⟩, ?_⟩
    · rw [hsplit] at hs
      exact ⟨(hplain s hs).kept.1, (hplain s hs).kept.2, (hplain s hs).notUp⟩
    · rw [normaliseEntryPath_iff, unify_of_not_mem hback, hsplit]
      refine ⟨hnul, hrelative, hdrive, (List.filter_eq_self.mpr fun s hs => ?_).symm, fun hup => (hplain _ hup).notUp rfl, hne⟩
      simpa using (hplain s hs).kept

/-- **What is accepted, and all that stripping leaves of it, is canonical** and left as it is, unless a segment has a drive letter in
front. -/
theorem accepted_stable_iff (rawPath : Text) (segments : List Text) (h : normaliseEntryPath rawPath = .ok segments) :
    (∀ strip, segments.drop strip ≠ [] → Stable (segments.drop strip)) ↔
      ∀ segment ∈ (unify rawPath).splitOn slash, driveLetter segment = false := by
  have hplain := normaliseEntryPath_plain h
  rw [normaliseEntryPath_iff] at h
  obtain ⟨-, -, -, hsegments, -⟩ := h
  have hmem (segment : Text) (hdrive : driveLetter segment = true) : segment ∈ (unify rawPath).splitOn slash ↔ segment ∈ segments := by
    rw [hsegments, List.mem_filter]
    refine ⟨fun hs => ⟨hs, ?_⟩, And.left⟩
    rw [Bool.and_eq_true, bne_iff_ne, bne_iff_ne]
    constructor <;> rintro rfl <;> cases hdrive
  constructor
  · intro hall segment hs
    by_contra hdrive
    rw [Bool.not_eq_false] at hdrive
    obtain ⟨k, hk, hget⟩ := List.mem_iff_getElem.mp ((hmem segment hdrive).mp hs)
    have hdrop : segments.drop k = segment :: segments.drop (k + 1) := by rw [List.drop_eq_getElem_cons hk, hget]
    have hne : segments.drop k ≠ [] := by rw [hdrop]; exact List.cons_ne_nil _ _
    have hfree := (stable_iff hne fun s hs => hplain s (List.mem_of_mem_drop hs)).mp (hall k hne) segment (by rw [hdrop]; rfl)
    rw [hdrive] at hfree
    cases hfree
  · intro hfree strip hne
    refine (stable_iff hne fun s hs => hplain s (List.mem_of_mem_drop hs)).mpr fun segment hs => ?_
    by_contra hdrive
    rw [Bool.not_eq_false] at hdrive
    have hin := (hmem segment hdrive).mpr (List.mem_of_mem_drop (List.mem_of_mem_head? hs))
    rw [hfree segment hin] at hdrive
    cases hdrive

theorem accepted_stable_iff_sources :
    (∀ strip, [ascii "src", ascii "a.ts"].drop strip ≠ [] → Stable ([ascii "src", ascii "a.ts"].drop strip)) ↔
      ∀ segment ∈ (unify (ascii "./src\\a.ts")).splitOn slash, driveLetter segment = false :=
  accepted_stable_iff (ascii "./src\\a.ts") _ (normaliseEntryPath_iff.mpr (by decide))

/-- What is dropped in front of a drive letter. -/
theorem drive_exposed : ¬ ∀ (rawPath : Text) (segments : List Text), normaliseEntryPath rawPath = .ok segments →
    ∀ strip, segments.drop strip ≠ [] → Stable (segments.drop strip) := by
  intro h
  have hstable := h (ascii "./C:/evil") [ascii "C:", ascii "evil"] (normaliseEntryPath_iff.mpr (by decide)) 0 nofun
  exact absurd hstable.1.noDrive (by decide)

end Paths

end WebAudit.Archive
