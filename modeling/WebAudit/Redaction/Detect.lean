import WebAudit.Redaction.Rules
import WebAudit.Lib.Greedy
import Mathlib.Data.List.Sort

/-!
# Detecting credentials

What the rules match and what has a high entropy are the candidates; those that are chosen do not overlap,
the longest first (`detectSecrets`). Every match says where it is and what is there
(`detectSecrets_sound`), and what is covered is what the winning candidates cover (`covered_iff`).

Entropy is a sum of doubles: whether it is below the minimum is a parameter.
-/

namespace WebAudit.Redaction

open WebAudit.Lib WebAudit.Lib.Uri WebAudit.Lib.Regex

/-! ### Candidates -/

structure SecretMatch where
  kind : SecretKind
  severity : Severity
  value : Text
  start : ℕ
  stop : ℕ
  line : ℕ
  column : ℕ
  deriving DecidableEq

structure DetectOptions where
  /-- The entropy of a text is below the minimum. -/
  lowEntropy : Text → Bool
  minEntropyLength : ℕ := 25
  maxEntropyLength : ℕ := 200

/-- `slice`, as long as `b` is not before `a`. -/
def slice {α : Type} (xs : List α) (a b : ℕ) : List α := (xs.drop a).take (b - a)

def lastIndexOf (text value : Text) : Option ℕ :=
  (List.range (text.length + 1 - value.length)).reverse.find? fun i => value.isPrefixOf (text.drop i)

def looksGenerated (value : Text) : Bool := value.any isLower && value.any isUpper && value.any isDigit

def spansOverlap (a b : ℕ × ℕ) : Bool := a.1 < b.2 && b.1 < a.2

def collectSpans (text : Text) (patterns : List Pattern) : List (ℕ × ℕ) :=
  patterns.flatMap fun pattern => (matchAll pattern text).map fun m => (m.index, m.stop)

/-- The candidate of a rule, whose place in the match is where its value was last found. -/
def namedMatch (text : Text) (rule : Rule) (m : Match) : Option SecretMatch :=
  let whole := slice text m.index m.stop
  let value := if rule.captured then m.group.map fun g => slice text g.1 g.2 else some whole
  match value with
  | none => none
  | some value =>
    if value = [] then none
    else
      match if rule.captured then lastIndexOf whole value else some 0 with
      | none => none
      | some offset =>
        let start := m.index + offset
        some ⟨rule.kind, severityOf rule.kind, value, start, start + value.length, 0, 0⟩

def namedMatches (text : Text) : List SecretMatch :=
  rules.flatMap fun rule => (matchAll rule.pattern text).filterMap (namedMatch text rule)

def entropyMatches (text : Text) (options : DetectOptions) : List SecretMatch :=
  let benign := collectSpans text benignSpans
  (matchAll entropyCandidate text).filterMap fun m =>
    let value := slice text m.index m.stop
    if value.length < options.minEntropyLength ∨ options.maxEntropyLength < value.length then none
    else if looksGenerated value = false then none
    else if benign.any fun b => spansOverlap (m.index, m.index + value.length) b then none
    else if options.lowEntropy value then none
    else some ⟨.HIGH_ENTROPY_STRING, severityOf .HIGH_ENTROPY_STRING, value, m.index, m.index + value.length, 0, 0⟩

/-! ### Choice -/

def lineStarts (text : Text) : List ℕ :=
  0 :: (List.range text.length).filterMap fun i => if text[i]? = some 0x0A then some (i + 1) else none

/-- The last start that is not after `offset`, by halving. -/
def search (starts : List ℕ) (offset : ℕ) : ℕ → ℕ → ℕ → ℕ
  | 0, low, _ => low
  | fuel + 1, low, high =>
    if low < high then
      let mid := (low + high + 1) / 2
      if starts.getD mid 0 ≤ offset then search starts offset fuel mid high else search starts offset fuel low (mid - 1)
    else low

def positionOf (starts : List ℕ) (offset : ℕ) : ℕ × ℕ :=
  let low := search starts offset starts.length 0 (starts.length - 1)
  (low + 1, offset - starts.getD low 0 + 1)

def SecretMatch.span (m : SecretMatch) : ℕ × ℕ := (m.start, m.stop)

def overlaps (a b : SecretMatch) : Bool := spansOverlap a.span b.span

/-- The longest first, then the most trusted, then the first. -/
def comparator (a b : SecretMatch) : ℤ :=
  let byLength : ℤ := (b.stop - b.start : ℤ) - (a.stop - a.start)
  if byLength ≠ 0 then byLength
  else
    let byTrust : ℤ := (precedence b.kind : ℤ) - precedence a.kind
    if byTrust ≠ 0 then byTrust else (a.start : ℤ) - b.start

def candidates (text : Text) (options : DetectOptions) : List SecretMatch := namedMatches text ++ entropyMatches text options

def accepted (text : Text) (options : DetectOptions) : List SecretMatch :=
  greedy overlaps ((candidates text options).insertionSort fun a b => comparator a b ≤ 0)

def detectSecrets (text : Text) (options : DetectOptions) : List SecretMatch :=
  let starts := lineStarts text
  ((accepted text options).insertionSort fun a b => a.start ≤ b.start).map fun m =>
    { m with line := (positionOf starts m.start).1, column := (positionOf starts m.start).2 }

/-! ### Candidates are spans -/

/-- A candidate is a span that is not empty, and has what is there. -/
structure SecretMatch.Stands (text : Text) (m : SecretMatch) : Prop where
  lt : m.start < m.stop
  length : m.stop ≤ text.length
  value : m.value = slice text m.start m.stop

section Candidates

variable {text value : Text} {options : DetectOptions} {m : SecretMatch}

@[simp] theorem length_slice {a b : ℕ} (hab : a ≤ b) (hb : b ≤ text.length) : (slice text a b).length = b - a := by
  unfold slice
  rw [List.length_take, List.length_drop]
  omega

theorem lastIndexOf_some {i : ℕ} (h : lastIndexOf text value = some i) :
    i + value.length ≤ text.length ∧ value = slice text i (i + value.length) := by
  have hmem := List.mem_reverse.mp (List.mem_of_find?_eq_some h)
  have hpre := List.find?_some h
  rw [List.mem_range] at hmem
  refine ⟨by omega, ?_⟩
  unfold slice
  rw [Nat.add_sub_cancel_left]
  exact List.prefix_iff_eq_take.mp (List.isPrefixOf_iff_prefix.mp hpre)

/-- A slice of a slice. -/
theorem slice_slice {a b c d : ℕ} (hd : a + d ≤ b) : slice (slice text a b) c d = slice text (a + c) (a + d) := by
  unfold slice
  rw [List.drop_take, List.take_take, List.drop_drop]
  congr 1
  omega

theorem namedMatch_stands {rule : Rule} {match' : Match} (hspans : match'.Spans text) (h : namedMatch text rule match' = some m) :
    m.Stands text := by
  unfold namedMatch at h
  dsimp only at h
  split at h
  · cases h
  rename_i value hvalue
  split at h
  · cases h
  rename_i hne
  have hpos := List.length_pos_iff.mpr hne
  split at h
  · cases h
  rename_i offset hoffset
  cases h
  have hwhole : (slice text match'.index match'.stop).length = match'.stop - match'.index := length_slice hspans.le hspans.length
  have hspan := hspans.length
  have hle := hspans.le
  split at hoffset
  · obtain ⟨hlength, heq⟩ := lastIndexOf_some hoffset
    rw [hwhole] at hlength
    rw [slice_slice (by omega)] at heq
    refine ⟨?_, ?_, ?_⟩
    · dsimp only
      omega
    · dsimp only
      omega
    · dsimp only
      rw [Nat.add_assoc]
      exact heq
  · rename_i hcaptured
    cases hoffset
    rw [if_neg hcaptured] at hvalue
    cases hvalue
    refine ⟨?_, ?_, ?_⟩
    · dsimp only
      omega
    · dsimp only
      omega
    · dsimp only
      rw [hwhole]
      congr 1
      omega

theorem entropyMatches_stands (h : m ∈ entropyMatches text options) : m.Stands text := by
  obtain ⟨match', hmatch, h⟩ := List.mem_filterMap.mp h
  have hspans := matchAll_spans hmatch
  have hlength : (slice text match'.index match'.stop).length = match'.stop - match'.index := length_slice hspans.le hspans.length
  have hle := hspans.le
  have hspan := hspans.length
  dsimp only at h
  split at h
  · cases h
  split at h
  · cases h
  rename_i hgenerated
  split at h
  · cases h
  split at h
  · cases h
  cases h
  have hpos : 0 < (slice text match'.index match'.stop).length := by
    refine List.length_pos_iff.mpr fun hnil => hgenerated ?_
    rw [hnil]
    rfl
  refine ⟨?_, ?_, ?_⟩
  · dsimp only
    omega
  · dsimp only
    omega
  · dsimp only
    congr 1
    omega

/-- **Every candidate is a span of the text.** -/
theorem candidates_stand (h : m ∈ candidates text options) : m.Stands text := by
  rcases List.mem_append.mp h with h | h
  · obtain ⟨rule, -, h⟩ := List.mem_flatMap.mp h
    obtain ⟨match', hmatch, h⟩ := List.mem_filterMap.mp h
    exact namedMatch_stands (matchAll_spans hmatch) h
  · exact entropyMatches_stands h

end Candidates

/-! ### The order of the candidates -/

section Order

variable {a b c : SecretMatch}

/-- `a` is longer, or more trusted, or before. -/
def Beats (a b : SecretMatch) : Prop := comparator a b < 0

theorem comparator_swap (a b : SecretMatch) : comparator b a = -comparator a b := by
  unfold comparator
  dsimp only
  split_ifs <;> omega

theorem comparator_trans (h : comparator a b ≤ 0) (h' : comparator b c ≤ 0) : comparator a c ≤ 0 := by
  unfold comparator at *
  dsimp only at *
  split_ifs at * <;> omega

instance : Std.Total fun a b : SecretMatch => comparator a b ≤ 0 where
  total a b := by
    rw [comparator_swap a b]
    omega

instance : IsTrans SecretMatch fun a b => comparator a b ≤ 0 where
  trans _ _ _ := comparator_trans

theorem not_beats_self (a : SecretMatch) : ¬ Beats a a := by
  unfold Beats comparator
  simp

/-- Who is not beaten either way has the same span. -/
theorem span_of_tie (h : ¬ Beats a b) (h' : ¬ Beats b a) : a.span = b.span := by
  unfold Beats at h h'
  rw [comparator_swap a b] at h'
  have hzero : comparator a b = 0 := by omega
  unfold comparator at hzero
  dsimp only at hzero
  unfold SecretMatch.span
  split_ifs at hzero
  · exact absurd hzero (by assumption)
  · exact absurd hzero (by assumption)
  · ext <;> dsimp only <;> omega

theorem overlaps_congr (c : SecretMatch) (h : a.span = b.span) : overlaps a c = overlaps b c := by
  unfold overlaps
  rw [h]

/-- Who wins among the candidates of a text: all those lose that beat it and overlap it. -/
def Wins (text : Text) (options : DetectOptions) (m : SecretMatch) : Prop := Contest Beats overlaps (candidates text options) m true

end Order

/-! ### What is chosen -/

section Chosen

variable {text : Text} {options : DetectOptions} {m : SecretMatch}

/-- A match, but for its line and column. -/
theorem mem_detectSecrets (h : m ∈ detectSecrets text options) :
    ∃ c ∈ accepted text options, m = { c with
      line := (positionOf (lineStarts text) c.start).1, column := (positionOf (lineStarts text) c.start).2 } := by
  obtain ⟨c, hc, rfl⟩ := List.mem_map.mp h
  exact ⟨c, (List.mem_insertionSort _).mp hc, rfl⟩

theorem accepted_mem (h : m ∈ accepted text options) : m ∈ candidates text options :=
  (List.mem_insertionSort _).mp (greedy_pairwise.1 m h)

theorem not_overlaps_symm {a b : SecretMatch} (h : overlaps a b = false) : overlaps b a = false := by
  unfold overlaps spansOverlap at *
  rw [Bool.and_comm]
  exact h

/-- **The matches are apart and in order.** -/
theorem detectSecrets_ordered (text : Text) (options : DetectOptions) :
    (detectSecrets text options).Pairwise fun a b => a.stop ≤ b.start := by
  unfold detectSecrets
  dsimp only
  rw [List.pairwise_map]
  have hperm := List.perm_insertionSort (fun a b : SecretMatch => a.start ≤ b.start) (accepted text options)
  have hsorted : ((accepted text options).insertionSort fun a b => a.start ≤ b.start).Pairwise fun a b => a.start ≤ b.start :=
    List.pairwise_insertionSort _ _
  have hapart : ((accepted text options).insertionSort fun a b => a.start ≤ b.start).Pairwise fun a b => overlaps a b = false :=
    (hperm.pairwise_iff not_overlaps_symm).mpr greedy_pairwise.2
  refine (hsorted.and hapart).imp_of_mem fun {a b} ha hb ⟨hle, hfree⟩ => ?_
  have hlt := (candidates_stand (accepted_mem (hperm.mem_iff.mp ha))).lt
  have hlt' := (candidates_stand (accepted_mem (hperm.mem_iff.mp hb))).lt
  change a.stop ≤ b.start
  unfold overlaps spansOverlap SecretMatch.span at hfree
  simp only [Bool.and_eq_false_iff, decide_eq_false_iff_not, not_lt] at hfree
  omega

theorem sorted_beats (text : Text) (options : DetectOptions) :
    ((candidates text options).insertionSort fun a b => comparator a b ≤ 0).Pairwise fun a b => ¬ Beats b a := by
  refine (List.pairwise_insertionSort _ _).imp fun {a b} h => ?_
  unfold Beats
  rw [comparator_swap a b]
  omega

/-- **What is covered** is what the winners cover. -/
theorem covered_iff (text : Text) (options : DetectOptions) (P : ℕ × ℕ → Prop) :
    (∃ m ∈ detectSecrets text options, P m.span) ↔ ∃ c ∈ candidates text options, Wins text options c ∧ P c.span := by
  have hmem (a : SecretMatch) : a ∈ candidates text options ↔ a ∈ (candidates text options).insertionSort fun a b => comparator a b ≤ 0 :=
    (List.mem_insertionSort _).symm
  have hgreedy := exists_greedy_iff not_beats_self (sorted_beats text options) (fun a _ b _ => span_of_tie)
    (fun _ _ c => overlaps_congr c) P
  constructor
  · rintro ⟨m, hm, hp⟩
    obtain ⟨c, hc, rfl⟩ := mem_detectSecrets hm
    obtain ⟨c', hc', hwins, hp'⟩ := hgreedy.mp ⟨c, hc, hp⟩
    exact ⟨c', (hmem c').mpr hc', hwins.congr hmem, hp'⟩
  · rintro ⟨c, hc, hwins, hp⟩
    obtain ⟨a, ha, hp'⟩ := hgreedy.mpr ⟨c, (hmem c).mp hc, hwins.congr fun a => (hmem a).symm, hp⟩
    exact ⟨_, List.mem_map_of_mem ((List.mem_insertionSort _).mpr ha), hp'⟩

end Chosen

/-! ### Lines and columns -/

section Lines

variable {text : Text} {starts : List ℕ} {offset : ℕ}

/-- `offset` is in this line and column: so many line breaks come before it, and its line begins so far before it. -/
structure Located (text : Text) (offset line column : ℕ) : Prop where
  line : line = (text.take offset).count 0x0A + 1
  pos : 0 < column
  le : column ≤ offset + 1
  starts : offset + 1 = column ∨ text[offset - column]? = some 0x0A
  within : ∀ i, offset + 1 - column ≤ i → i < offset → text[i]? ≠ some 0x0A

theorem mem_lineStarts {k : ℕ} : k ∈ lineStarts text ↔ k = 0 ∨ ∃ i, text[i]? = some 0x0A ∧ k = i + 1 := by
  unfold lineStarts
  rw [List.mem_cons, List.mem_filterMap]
  refine or_congr_right ⟨?_, ?_⟩
  · rintro ⟨i, -, h⟩
    split at h
    · rename_i hi
      exact ⟨i, hi, (Option.some.inj h).symm⟩
    · cases h
  · rintro ⟨i, hi, rfl⟩
    exact ⟨i, List.mem_range.mpr (List.getElem?_eq_some_iff.mp hi).1, if_pos hi⟩

theorem lineStarts_concat (text : Text) (u : ℕ) :
    lineStarts (text ++ [u]) = lineStarts text ++ if u = 0x0A then [text.length + 1] else [] := by
  unfold lineStarts
  rw [List.length_append, List.length_singleton, List.range_succ, List.filterMap_append, List.cons_append]
  have hold : (List.range text.length).filterMap (fun i => if (text ++ [u])[i]? = some 0x0A then some (i + 1) else none) =
      (List.range text.length).filterMap fun i => if text[i]? = some 0x0A then some (i + 1) else none := by
    refine List.filterMap_congr fun i hi => ?_
    rw [List.getElem?_append_left (List.mem_range.mp hi)]
  rw [hold]
  congr 2
  by_cases hu : u = 0x0A <;> simp [hu]

theorem lineStarts_sorted (text : Text) : (lineStarts text).Pairwise (· < ·) := by
  induction text using List.reverseRecOn with
  | nil => exact List.pairwise_singleton _ _
  | append_singleton text u ih =>
    rw [lineStarts_concat]
    refine List.pairwise_append.mpr ⟨ih, by split <;> simp, fun a ha b hb => ?_⟩
    split at hb
    · obtain rfl := List.mem_singleton.mp hb
      rcases mem_lineStarts.mp ha with rfl | ⟨i, hi, rfl⟩
      · omega
      · have hlt := (List.getElem?_eq_some_iff.mp hi).1
        omega
    · cases hb

/-- The line starts that are not after `offset`. -/
theorem countP_lineStarts (text : Text) (offset : ℕ) :
    (lineStarts text).countP (· ≤ offset) = (text.take offset).count 0x0A + 1 := by
  induction text using List.reverseRecOn with
  | nil => simp [lineStarts]
  | append_singleton text u ih =>
    rw [lineStarts_concat, List.countP_append, ih]
    by_cases hle : offset ≤ text.length
    · rw [List.take_append_of_le_length hle]
      split
      · rw [List.countP_singleton, if_neg (by simpa using Nat.lt_succ_of_le hle)]
      · simp
    · have hlt : text.length + 1 ≤ offset := by omega
      rw [List.take_of_length_le (by omega), List.take_of_length_le (by simpa using hlt), List.count_append, List.count_singleton]
      by_cases hu : u = 0x0A
      · simp [hu, hlt]
      · simp [hu]

/-- Those are the first ones. -/
theorem countP_le (hsorted : starts.Pairwise (· < ·)) {low : ℕ} (hlow : low < starts.length) (hle : starts[low] ≤ offset)
    (hafter : ∀ (j : ℕ) x, low < j → starts[j]? = some x → offset < x) : starts.countP (· ≤ offset) = low + 1 := by
  have hfirst : (starts.take (low + 1)).countP (· ≤ offset) = low + 1 := by
    have hall : (starts.take (low + 1)).countP (· ≤ offset) = (starts.take (low + 1)).length := by
      refine List.countP_eq_length.mpr fun x hx => ?_
      obtain ⟨j, hj, rfl⟩ := List.mem_take_iff_getElem.mp hx
      have hj' : j ≤ low := by omega
      rcases Nat.eq_or_lt_of_le hj' with rfl | hlt
      · simpa using hle
      · have := List.pairwise_iff_getElem.mp hsorted j low (by omega) hlow hlt
        simp
        omega
    rw [hall, List.length_take]
    omega
  have hrest : (starts.drop (low + 1)).countP (· ≤ offset) = 0 := by
    refine List.countP_eq_zero.mpr fun x hx => ?_
    obtain ⟨j, hj⟩ := List.mem_iff_getElem?.mp hx
    rw [List.getElem?_drop] at hj
    have := hafter _ x (by omega) hj
    simp
    omega
  calc starts.countP (· ≤ offset) = (starts.take (low + 1) ++ starts.drop (low + 1)).countP (· ≤ offset) := by
        rw [List.take_append_drop]
    _ = low + 1 := by rw [List.countP_append, hfirst, hrest]

/-- **Halving**: the last start that is not after `offset`. -/
theorem search_spec (hsorted : starts.Pairwise (· < ·)) (fuel low high : ℕ) (hfuel : high ≤ low + fuel) (hle : low ≤ high)
    (hhigh : high < starts.length) (hlow : starts.getD low 0 ≤ offset)
    (hafter : ∀ (j : ℕ) x, high < j → starts[j]? = some x → offset < x) :
    starts.getD (search starts offset fuel low high) 0 ≤ offset ∧ search starts offset fuel low high < starts.length ∧
      ∀ (j : ℕ) x, search starts offset fuel low high < j → starts[j]? = some x → offset < x := by
  induction fuel generalizing low high with
  | zero =>
    obtain rfl : low = high := by omega
    exact ⟨hlow, hhigh, hafter⟩
  | succ fuel ih =>
    unfold search
    split
    · dsimp only
      split
      · rename_i hmid
        exact ih _ _ (by omega) (by omega) hhigh hmid hafter
      · rename_i hmid
        refine ih _ _ (by omega) (by omega) (by omega) hlow fun j x hj hx => ?_
        have hmidlt : (low + high + 1) / 2 < starts.length := by omega
        rw [List.getD_eq_getElem?_getD, List.getElem?_eq_getElem hmidlt, Option.getD_some] at hmid
        obtain ⟨hjlt, rfl⟩ := List.getElem?_eq_some_iff.mp hx
        rcases Nat.eq_or_lt_of_le (show (low + high + 1) / 2 ≤ j by omega) with heq | hlt
        · subst heq
          omega
        · have hsort := List.pairwise_iff_getElem.mp hsorted _ _ hmidlt hjlt hlt
          omega
    · obtain rfl : low = high := by omega
      exact ⟨hlow, hhigh, hafter⟩

/-- **The position of an offset.** -/
theorem positionOf_located (text : Text) (offset : ℕ) :
    Located text offset (positionOf (lineStarts text) offset).1 (positionOf (lineStarts text) offset).2 := by
  have hlength : 0 < (lineStarts text).length := Nat.succ_pos _
  have hstart : (lineStarts text).getD 0 0 ≤ offset := Nat.zero_le _
  obtain ⟨hle, hlt, hafter⟩ := search_spec (lineStarts_sorted text) (lineStarts text).length 0 ((lineStarts text).length - 1)
    (by omega) (Nat.zero_le _) (by omega) hstart fun j x hj hx => absurd (List.getElem?_eq_some_iff.mp hx).1 (by omega)
  unfold positionOf
  dsimp only
  generalize search (lineStarts text) offset (lineStarts text).length 0 ((lineStarts text).length - 1) = low at hle hlt hafter ⊢
  rw [List.getD_eq_getElem?_getD, List.getElem?_eq_getElem hlt, Option.getD_some] at hle ⊢
  have hsorted := List.pairwise_iff_getElem.mp (lineStarts_sorted text)
  refine ⟨?_, by omega, by omega, ?_, fun i hi hi' hbreak => ?_⟩
  · rw [← countP_lineStarts, countP_le (lineStarts_sorted text) hlt hle hafter]
  · rcases mem_lineStarts.mp (List.getElem_mem hlt) with hzero | ⟨i, hi, heq⟩
    · exact .inl (by omega)
    · refine .inr ?_
      rw [← hi]
      congr 1
      omega
  · obtain ⟨j, hj⟩ := List.mem_iff_getElem?.mp (mem_lineStarts.mpr (.inr ⟨i, hbreak, rfl⟩))
    obtain ⟨hjlt, hjeq⟩ := List.getElem?_eq_some_iff.mp hj
    by_cases hafter' : low < j
    · have := hafter j _ hafter' hj
      omega
    · rcases Nat.eq_or_lt_of_le (not_lt.mp hafter') with rfl | hbefore
      · omega
      · have := hsorted j low hjlt hlt hbefore
        omega

end Lines

/-- **Every match** is a span of the text, has what is there, and says where it begins. -/
theorem detectSecrets_sound {text : Text} {options : DetectOptions} {m : SecretMatch} (h : m ∈ detectSecrets text options) :
    m.Stands text ∧ Located text m.start m.line m.column := by
  obtain ⟨c, hc, rfl⟩ := mem_detectSecrets h
  obtain ⟨hlt, hlength, hvalue⟩ := candidates_stand (accepted_mem hc)
  exact ⟨⟨hlt, hlength, hvalue⟩, positionOf_located text c.start⟩

end WebAudit.Redaction
