import WebAudit.Redaction.Detect

/-!
# Redaction

Matches are replaced from the last to the first, in a text (`redactText`) and in the segments of a prompt
(`assemblePrompt`), where equal values have one placeholder. What is replaced is a list of anything that
placeholders can be written in: with the units of the text themselves this is what the source does, and
with units that carry the place they come from it shows what survives (`mem_pieces`).
-/

namespace WebAudit.Redaction

open WebAudit.Lib.Uri

/-! ### Texts -/

def redactedTag (kind : SecretKind) : Text := ascii "[[REDACTED:" ++ kind.name ++ ascii "]]"

/-- `String(n)`. -/
def decimalText (n : ℕ) : Text := (Nat.toDigits 10 n).map Char.toNat

theorem isDigit_of_mem_decimalText {n u : ℕ} (h : u ∈ decimalText n) : isDigit u = true := by
  obtain ⟨c, hc, rfl⟩ := List.mem_map.mp h
  have hdigit := Nat.isDigit_of_mem_toDigits (by decide) (by decide) hc
  rw [Char.isDigit, Bool.and_eq_true, decide_eq_true_eq, decide_eq_true_eq] at hdigit
  unfold isDigit
  rw [Bool.and_eq_true, decide_eq_true_eq, decide_eq_true_eq]
  exact ⟨UInt32.le_iff_toNat_le.mp hdigit.1, UInt32.le_iff_toNat_le.mp hdigit.2⟩

theorem decimalText_injective : Function.Injective decimalText := by
  intro n n' h
  have hchars : Nat.toDigits 10 n = Nat.toDigits 10 n' :=
    List.map_injective_iff.mpr (fun c d hcd => Char.ext (UInt32.toNat_inj.mp hcd)) h
  rw [← Nat.ofDigitChars_ten_toDigits (n := n), hchars, Nat.ofDigitChars_ten_toDigits]

def placeholderFor (kind : SecretKind) (ordinal : ℕ) : Text :=
  ascii "[[REDACTED:" ++ kind.name ++ ascii ":" ++ decimalText ordinal ++ ascii "]]"

section Units

variable {α : Type}

/-- One match is replaced. -/
def replaceOne (redacted : List α) (m : SecretMatch) (placeholder : List α) : List α :=
  redacted.take m.start ++ placeholder ++ redacted.drop m.stop

def redactUnits (lift : ℕ → α) (text : Text) (options : DetectOptions) (content : List α) : List α :=
  (detectSecrets text options).reverse.foldl (fun redacted m => replaceOne redacted m ((redactedTag m.kind).map lift)) content

def redactText (text : Text) (options : DetectOptions) : Text := redactUnits id text options text

/-! ### Prompts -/

structure PromptSegment where
  label : Text
  path : Text
  content : Text
  deriving DecidableEq

structure PromptSource where
  instructions : Text
  segments : List PromptSegment
  deriving DecidableEq

structure PlaceholderRecord where
  placeholder : Text
  kind : SecretKind
  location : Text
  deriving DecidableEq

structure RedactedSecretRef where
  kind : SecretKind
  severity : Severity
  path : Text
  label : Text
  line : ℕ
  column : ℕ
  length : ℕ
  placeholder : Text
  deriving DecidableEq

structure RedactedPrompt where
  text : Text
  placeholders : List PlaceholderRecord
  redactionCount : ℕ
  deriving DecidableEq

structure AssembledPrompt where
  prompt : RedactedPrompt
  secrets : List RedactedSecretRef
  deriving DecidableEq

/-- The placeholders that have been given out in a call. -/
structure Assigned where
  assigned : List (Text × Text)
  ordinal : ℕ
  placeholders : List PlaceholderRecord

def Assigned.get (s : Assigned) (value : Text) : Option Text := s.assigned.lookup value

def location (path : Text) (m : SecretMatch) : Text := path ++ ascii ":" ++ decimalText m.line ++ ascii ":" ++ decimalText m.column

/-- A value that has none gets the next placeholder. -/
def Assigned.assign (path : Text) (s : Assigned) (m : SecretMatch) : Assigned :=
  match s.get m.value with
  | some _ => s
  | none =>
    let placeholder := placeholderFor m.kind (s.ordinal + 1)
    ⟨(m.value, placeholder) :: s.assigned, s.ordinal + 1, s.placeholders ++ [⟨placeholder, m.kind, location path m⟩]⟩

/-- The placeholder of a value that has one. -/
def Assigned.placeholder (s : Assigned) (m : SecretMatch) : Text := (s.get m.value).getD []

def replaceNext (lift : ℕ → α) (path : Text) (s : Assigned × List α) (m : SecretMatch) : Assigned × List α :=
  let assigned := s.1.assign path m
  (assigned, replaceOne s.2 m ((assigned.placeholder m).map lift))

def truncation (dropped : ℕ) : Text := 0x0A :: 0x2026 :: ascii " [truncated " ++ decimalText dropped ++ ascii " characters]"

def clip (lift : ℕ → α) (maxChars : ℕ) (redacted : List α) : List α :=
  if maxChars < redacted.length then redacted.take maxChars ++ (truncation (redacted.length - maxChars)).map lift else redacted

def heading (segment : PromptSegment) : Text := ascii "--- " ++ segment.label ++ ascii ": " ++ segment.path ++ ascii " ---\n"

def secretRef (s : Assigned) (segment : PromptSegment) (m : SecretMatch) : RedactedSecretRef :=
  ⟨m.kind, severityOf m.kind, segment.path, segment.label, m.line, m.column, m.value.length, s.placeholder m⟩

structure Assembly (α : Type) where
  assigned : Assigned
  secrets : List RedactedSecretRef
  rendered : List (List α)

def assembleSegment (lift : ℕ → α) (embed : Text → List α) (maxChars : ℕ) (options : DetectOptions) (s : Assembly α)
    (segment : PromptSegment) : Assembly α :=
  let found := detectSecrets segment.content options
  let (assigned, redacted) := found.reverse.foldl (replaceNext lift segment.path) (s.assigned, embed segment.content)
  { assigned
    secrets := s.secrets ++ found.map (secretRef assigned segment)
    rendered := s.rendered ++ [(heading segment).map lift ++ clip lift maxChars redacted] }

def assemble (lift : ℕ → α) (embed : Text → List α) (maxChars : ℕ) (options : DetectOptions) (segments : List PromptSegment) :
    Assembly α :=
  segments.foldl (assembleSegment lift embed maxChars options) ⟨⟨[], 0, []⟩, [], []⟩

def assemblePrompt (source : PromptSource) (maxChars : ℕ) (options : DetectOptions) : AssembledPrompt :=
  let s := assemble id id maxChars options source.segments
  let text := List.intercalate [0x0A] (source.instructions :: [] :: s.rendered)
  ⟨⟨text, s.assigned.placeholders, s.secrets.length⟩, s.secrets⟩

/-! ### What is given out -/

section Assigned

variable {s : Assigned} {path : Text} {m : SecretMatch} {value token : Text}

theorem Assigned.get_assign (path : Text) (s : Assigned) (m : SecretMatch) : ∃ token, (s.assign path m).get m.value = some token := by
  unfold Assigned.assign
  split
  · rename_i token hget
    exact ⟨token, hget⟩
  · exact ⟨_, List.lookup_cons_self⟩

/-- Who has a placeholder keeps it. -/
theorem Assigned.assign_keeps (h : s.get value = some token) : (s.assign path m).get value = some token := by
  unfold Assigned.assign
  split
  · exact h
  · rename_i hnone
    have hne : value ≠ m.value := by
      rintro rfl
      rw [hnone] at h
      cases h
    unfold Assigned.get
    rw [List.lookup_cons, beq_eq_false_iff_ne.mpr hne]
    exact h

theorem Assigned.foldl_keeps (ms : List SecretMatch) (h : s.get value = some token) :
    (ms.foldl (Assigned.assign path) s).get value = some token := by
  induction ms generalizing s with
  | nil => exact h
  | cons m ms ih => exact ih (Assigned.assign_keeps h)

/-- **The placeholders of a segment** are those that its matches have in the end. -/
theorem foldl_replaceNext (lift : ℕ → α) (ms : List SecretMatch) (redacted : List α) :
    ms.foldl (replaceNext lift path) (s, redacted) =
      (ms.foldl (Assigned.assign path) s,
        ms.foldl (fun redacted m => replaceOne redacted m (((ms.foldl (Assigned.assign path) s).placeholder m).map lift)) redacted) := by
  induction ms generalizing s redacted with
  | nil => rfl
  | cons m ms ih =>
    obtain ⟨token, htoken⟩ := Assigned.get_assign path s m
    have hlast : (ms.foldl (Assigned.assign path) (s.assign path m)).get m.value = some token := Assigned.foldl_keeps ms htoken
    have hsame : (ms.foldl (Assigned.assign path) (s.assign path m)).placeholder m = (s.assign path m).placeholder m := by
      unfold Assigned.placeholder
      rw [htoken, hlast]
    rw [List.foldl_cons, List.foldl_cons, List.foldl_cons, hsame]
    exact ih _

end Assigned

/-! ### What is left of a text -/

/-- What is between the matches, and what stands for them. -/
def pieces (content : List α) (placeholder : SecretMatch → List α) : ℕ → List SecretMatch → List α
  | pos, [] => content.drop pos
  | pos, m :: rest => slice content pos m.start ++ placeholder m ++ pieces content placeholder m.stop rest

variable {content : List α} {placeholder : SecretMatch → List α} {found : List SecretMatch} {x : α}

/-- Matches from `pos` on, apart, in order and within the text. -/
structure Apart (length pos : ℕ) (found : List SecretMatch) : Prop where
  ordered : found.Pairwise fun a b => a.stop ≤ b.start
  each : ∀ m ∈ found, pos ≤ m.start ∧ m.start < m.stop ∧ m.stop ≤ length

theorem Apart.tail {length pos : ℕ} {m : SecretMatch} (h : Apart length pos (m :: found)) : Apart length m.stop found := by
  obtain ⟨hfirst, hrest⟩ := List.pairwise_cons.mp h.ordered
  exact ⟨hrest, fun m' hm' => ⟨hfirst m' hm', (h.each m' (List.mem_cons_of_mem _ hm')).2⟩⟩

theorem mem_slice {a b : ℕ} : x ∈ slice content a b ↔ ∃ i, a ≤ i ∧ i < b ∧ content[i]? = some x := by
  unfold slice
  rw [List.mem_iff_getElem?]
  constructor
  · rintro ⟨i, hi⟩
    rw [List.getElem?_take, List.getElem?_drop] at hi
    split at hi
    · exact ⟨a + i, by omega, by omega, hi⟩
    · cases hi
  · rintro ⟨i, ha, hb, hi⟩
    refine ⟨i - a, ?_⟩
    rw [List.getElem?_take_of_lt (by omega), List.getElem?_drop, Nat.add_sub_cancel' ha, hi]

variable (placeholder) in
/-- **Replacing from the last to the first** leaves the earlier places where they were. -/
theorem replaceAll_pieces {pos : ℕ} (h : Apart content.length pos found) :
    (found.foldr (fun m redacted => replaceOne redacted m (placeholder m)) content).take pos = content.take pos ∧
      (found.foldr (fun m redacted => replaceOne redacted m (placeholder m)) content).drop pos = pieces content placeholder pos found := by
  induction found generalizing pos with
  | nil => exact ⟨rfl, rfl⟩
  | cons m rest ih =>
    obtain ⟨hpos, hlt, hstop⟩ := h.each m List.mem_cons_self
    obtain ⟨htake, hdrop⟩ := ih h.tail
    rw [List.foldr_cons]
    generalize rest.foldr (fun m redacted => replaceOne redacted m (placeholder m)) content = redacted at htake hdrop ⊢
    unfold replaceOne
    have hbefore (k : ℕ) (hk : k ≤ m.stop) : redacted.take k = content.take k := by
      rw [← Nat.min_eq_left hk, ← List.take_take, htake, List.take_take]
    rw [hbefore m.start hlt.le, hdrop]
    have hlength : (content.take m.start).length = m.start := List.length_take_of_le (by omega)
    constructor
    · rw [List.append_assoc, List.take_append_of_le_length (by omega), List.take_take, Nat.min_eq_left hpos]
    · rw [List.append_assoc, List.drop_append_of_le_length (by omega), ← List.append_assoc]
      rw [pieces, slice, List.drop_take]

/-- What is left is what stands for a match and what no match covers. -/
theorem mem_pieces {pos : ℕ} (h : Apart content.length pos found) :
    x ∈ pieces content placeholder pos found ↔ (∃ m ∈ found, x ∈ placeholder m) ∨
      ∃ i, pos ≤ i ∧ content[i]? = some x ∧ ∀ m ∈ found, ¬ (m.start ≤ i ∧ i < m.stop) := by
  induction found generalizing pos with
  | nil =>
    rw [pieces, List.mem_iff_getElem?]
    constructor
    · rintro ⟨i, hi⟩
      rw [List.getElem?_drop] at hi
      exact .inr ⟨pos + i, by omega, hi, fun _ hm => (List.not_mem_nil hm).elim⟩
    · rintro (⟨_, hm, -⟩ | ⟨i, hpos, hi, -⟩)
      · exact (List.not_mem_nil hm).elim
      · exact ⟨i - pos, by rwa [List.getElem?_drop, Nat.add_sub_cancel' hpos]⟩
  | cons m rest ih =>
    obtain ⟨hpos, hlt, hstop⟩ := h.each m List.mem_cons_self
    rw [pieces, List.mem_append, List.mem_append, ih h.tail, mem_slice]
    constructor
    · rintro ((⟨i, hi, hi', hx⟩ | hm) | (⟨m', hm', hx⟩ | ⟨i, hi, hx, hfree⟩))
      · refine .inr ⟨i, hi, hx, fun m' hm' => ?_⟩
        rcases List.mem_cons.mp hm' with rfl | hm'
        · omega
        · have := (h.tail.each m' hm').1
          omega
      · exact .inl ⟨m, List.mem_cons_self, hm⟩
      · exact .inl ⟨m', List.mem_cons_of_mem _ hm', hx⟩
      · refine .inr ⟨i, by omega, hx, fun m' hm' => ?_⟩
        rcases List.mem_cons.mp hm' with rfl | hm'
        · omega
        · exact hfree m' hm'
    · rintro (⟨m', hm', hx⟩ | ⟨i, hi, hx, hfree⟩)
      · rcases List.mem_cons.mp hm' with rfl | hm'
        · exact .inl (.inr hx)
        · exact .inr (.inl ⟨m', hm', hx⟩)
      · by_cases hbefore : i < m.start
        · exact .inl (.inl ⟨i, hi, hbefore, hx⟩)
        · have := hfree m List.mem_cons_self
          exact .inr (.inr ⟨i, by omega, hx, fun m' hm' => hfree m' (List.mem_cons_of_mem _ hm')⟩)

/-- The matches of a text, in anything as long as it is. -/
theorem detectSecrets_apart {text : Text} (options : DetectOptions) (hlength : content.length = text.length) :
    Apart content.length 0 (detectSecrets text options) := by
  refine ⟨detectSecrets_ordered text options, fun m hm => ?_⟩
  obtain ⟨hlt, hstop, -⟩ := (detectSecrets_sound hm).1
  exact ⟨Nat.zero_le _, hlt, hlength ▸ hstop⟩

theorem redactUnits_eq (lift : ℕ → α) {text : Text} (options : DetectOptions) (hlength : content.length = text.length) :
    redactUnits lift text options content =
      pieces content (fun m => (redactedTag m.kind).map lift) 0 (detectSecrets text options) := by
  unfold redactUnits
  rw [List.foldl_reverse]
  exact (replaceAll_pieces (fun m => (redactedTag m.kind).map lift) (detectSecrets_apart options hlength)).2

/-- What a segment is rendered as. -/
def rendering (lift : ℕ → α) (embed : Text → List α) (maxChars : ℕ) (options : DetectOptions) (s : Assigned) (segment : PromptSegment) :
    List α :=
  (heading segment).map lift ++ clip lift maxChars
    (pieces (embed segment.content) (fun m => (s.placeholder m).map lift) 0 (detectSecrets segment.content options))

/-- **One segment.** -/
theorem assembleSegment_eq (lift : ℕ → α) {embed : Text → List α} (hembed : ∀ text, (embed text).length = text.length) (maxChars : ℕ)
    (options : DetectOptions) (s : Assembly α) (segment : PromptSegment) :
    assembleSegment lift embed maxChars options s segment =
      let assigned := (detectSecrets segment.content options).reverse.foldl (Assigned.assign segment.path) s.assigned
      ⟨assigned, s.secrets ++ (detectSecrets segment.content options).map (secretRef assigned segment),
        s.rendered ++ [rendering lift embed maxChars options assigned segment]⟩ := by
  unfold assembleSegment rendering
  dsimp only
  rw [foldl_replaceNext]
  dsimp only
  generalize (detectSecrets segment.content options).reverse.foldl (Assigned.assign segment.path) s.assigned = assigned
  rw [List.foldl_reverse, ← (replaceAll_pieces (fun m => (assigned.placeholder m).map lift)
    (detectSecrets_apart options (hembed segment.content))).2]
  rfl

/-- **Each segment is rendered in its place.** -/
theorem assemble_rendered (lift : ℕ → α) {embed : Text → List α} (hembed : ∀ text, (embed text).length = text.length) (maxChars : ℕ)
    (options : DetectOptions) {segments : List PromptSegment} {k : ℕ} {segment : PromptSegment} (h : segments[k]? = some segment) :
    ∃ s, (assemble lift embed maxChars options segments).rendered[k]? = some (rendering lift embed maxChars options s segment) := by
  have hlength (segments : List PromptSegment) :
      (assemble lift embed maxChars options segments).rendered.length = segments.length := by
    induction segments using List.reverseRecOn with
    | nil => rfl
    | append_singleton segments last ih =>
      unfold assemble at ih ⊢
      rw [List.foldl_append, List.foldl_cons, List.foldl_nil, assembleSegment_eq lift hembed]
      simp [ih]
  induction segments using List.reverseRecOn with
  | nil => cases h
  | append_singleton segments last ih =>
    have hlast := hlength segments
    unfold assemble at ih hlast ⊢
    rw [List.foldl_append, List.foldl_cons, List.foldl_nil, assembleSegment_eq lift hembed]
    dsimp only
    by_cases hk : k < segments.length
    · rw [List.getElem?_append_left hk] at h
      obtain ⟨s, hs⟩ := ih h
      exact ⟨s, by rw [List.getElem?_append_left (by omega)]; exact hs⟩
    · rw [List.getElem?_append_right (by omega), List.getElem?_singleton] at h
      split at h
      · rename_i hk'
        cases h
        rw [List.getElem?_append_right (by omega), hlast, hk']
        exact ⟨_, rfl⟩
      · cases h

end Units

end WebAudit.Redaction
