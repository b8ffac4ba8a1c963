import WebAudit.Lib.Uri
import Mathlib.Data.List.Basic

/-!
# Regular expressions of ECMAScript

A backtracking matcher: `run` lists the ways in which an expression matches at a place of a text, in
the order in which they are tried, so that the first one is the match. There is at most one capture
group. `matchAll` is the method of that name, for an expression with the flag `g`.

Whatever the expression is, what it matches is a span of the text, and so is what its group has
captured (`matchAll_spans`).
-/

namespace WebAudit.Lib.Regex

open WebAudit.Lib.Uri

/-! ### Expressions -/

inductive Pattern where
  | empty
  /-- One unit of a class. -/
  | unit (p : ℕ → Bool)
  /-- `\b`. -/
  | boundary
  /-- `^`, with the flag `m`. -/
  | lineStart
  | seq (r s : Pattern)
  | alt (r s : Pattern)
  /-- `r{min,max}`, or lazily. -/
  | many (greedy : Bool) (min : ℕ) (max : Option ℕ) (r : Pattern)
  /-- The capture group. -/
  | group (r : Pattern)

/-- `\w`. -/
def isWord (u : ℕ) : Bool := 0x30 ≤ u && u ≤ 0x39 || 0x41 ≤ u && u ≤ 0x5A || u == 0x5F || 0x61 ≤ u && u ≤ 0x7A

/-- `\s`. -/
def isSpace (u : ℕ) : Bool :=
  u == 0x20 || 0x09 ≤ u && u ≤ 0x0D || u == 0xA0 || u == 0x1680 || 0x2000 ≤ u && u ≤ 0x200A || u == 0x2028 || u == 0x2029 ||
    u == 0x202F || u == 0x205F || u == 0x3000 || u == 0xFEFF

def isLineEnd (u : ℕ) : Bool := u == 0x0A || u == 0x0D || u == 0x2028 || u == 0x2029

/-! ### Matching -/

/-- A place in a text: the unit before it, what is left, and what the group has captured. -/
structure Place where
  pos : ℕ
  before : Option ℕ
  rest : Text
  group : Option (ℕ × ℕ)
  deriving DecidableEq

/-- Up to `fuel` iterations; one that is not required must not be empty. -/
def iterate (step : Place → List Place) (greedy : Bool) : ℕ → ℕ → Option ℕ → Place → List Place
  | 0, min, _, s => if min = 0 then [s] else []
  | fuel + 1, min, max, s =>
    let more := if max = some 0 then [] else (step s).flatMap fun s' =>
      if min = 0 ∧ s'.pos = s.pos then [] else iterate step greedy fuel (min - 1) (max.map (· - 1)) s'
    let stop := if min = 0 then [s] else []
    if greedy then more ++ stop else stop ++ more

/-- The ways in which an expression matches, in the order in which they are tried. -/
def run : Pattern → Place → List Place
  | .empty, s => [s]
  | .unit p, s =>
    match s.rest with
    | [] => []
    | u :: rest => if p u then [⟨s.pos + 1, some u, rest, s.group⟩] else []
  | .boundary, s => if s.before.any isWord != s.rest.head?.any isWord then [s] else []
  | .lineStart, s => if s.before.all isLineEnd then [s] else []
  | .seq r t, s => (run r s).flatMap (run t)
  | .alt r t, s => run r s ++ run t s
  | .many greedy min max r, s => iterate (run r) greedy (min + s.rest.length) min max s
  | .group r, s => (run r s).map fun s' => { s' with group := some (s.pos, s'.pos) }

structure Match where
  index : ℕ
  stop : ℕ
  group : Option (ℕ × ℕ)
  deriving DecidableEq

def placeAt (text : Text) (i : ℕ) : Place := ⟨i, if i = 0 then none else text[i - 1]?, text.drop i, none⟩

def matchAt (r : Pattern) (text : Text) (i : ℕ) : Option Match :=
  (run r (placeAt text i)).head?.map fun s => ⟨i, s.pos, s.group⟩

/-- The matches from `i` on. -/
def matchFrom (r : Pattern) (text : Text) : ℕ → ℕ → List Match
  | 0, _ => []
  | fuel + 1, i =>
    if text.length < i then []
    else
      match matchAt r text i with
      | none => matchFrom r text fuel (i + 1)
      | some m => m :: matchFrom r text fuel (if m.stop = i then i + 1 else m.stop)

def matchAll (r : Pattern) (text : Text) : List Match := matchFrom r text (text.length + 1) 0

/-! ### Spans -/

/-- `s'` is further on in the text, and what has been captured in between lies in between. -/
structure Follows (s s' : Place) : Prop where
  rest : ∃ k ≤ s.rest.length, s'.pos = s.pos + k ∧ s'.rest = s.rest.drop k
  group : s'.group = s.group ∨ ∃ a b, s'.group = some (a, b) ∧ s.pos ≤ a ∧ a ≤ b ∧ b ≤ s'.pos

section Follows

variable {s s' s'' : Place} {step : Place → List Place} {r : Pattern}

theorem Follows.refl : Follows s s := ⟨⟨0, Nat.zero_le _, rfl, rfl⟩, .inl rfl⟩

theorem Follows.le (h : Follows s s') : s.pos ≤ s'.pos := by
  obtain ⟨k, -, hpos, -⟩ := h.rest
  omega

theorem Follows.trans (h : Follows s s') (h' : Follows s' s'') : Follows s s'' := by
  have hle := h.le
  have hle' := h'.le
  obtain ⟨⟨k, hk, hpos, hrest⟩, hgroup⟩ := h
  obtain ⟨⟨k', hk', hpos', hrest'⟩, hgroup'⟩ := h'
  refine ⟨⟨k + k', ?_, by omega, by rw [hrest', hrest, List.drop_drop]⟩, ?_⟩
  · rw [hrest, List.length_drop] at hk'
    omega
  · rcases hgroup' with hgroup' | ⟨a, b, hsome, ha, hab, hb⟩
    · rw [hgroup']
      rcases hgroup with hgroup | ⟨a, b, hsome, ha, hab, hb⟩
      · exact .inl hgroup
      · exact .inr ⟨a, b, hsome, ha, hab, by omega⟩
    · exact .inr ⟨a, b, hsome, by omega, hab, hb⟩

theorem iterate_follows (hstep : ∀ s, ∀ s' ∈ step s, Follows s s') {greedy : Bool} {fuel min : ℕ} {max : Option ℕ}
    (h : s' ∈ iterate step greedy fuel min max s) : Follows s s' := by
  induction fuel generalizing s min max with
  | zero =>
    unfold iterate at h
    split at h
    · obtain rfl := List.mem_singleton.mp h
      exact .refl
    · cases h
  | succ fuel ih =>
    have hmore (h : s' ∈ if max = some 0 then [] else (step s).flatMap fun u =>
        if min = 0 ∧ u.pos = s.pos then [] else iterate step greedy fuel (min - 1) (max.map (· - 1)) u) : Follows s s' := by
      split at h
      · cases h
      obtain ⟨u, hu, hs'⟩ := List.mem_flatMap.mp h
      split at hs'
      · cases hs'
      · exact (hstep s u hu).trans (ih hs')
    have hstop (h : s' ∈ if min = 0 then [s] else []) : Follows s s' := by
      split at h
      · obtain rfl := List.mem_singleton.mp h
        exact .refl
      · cases h
    unfold iterate at h
    dsimp only at h
    split at h
    · rcases List.mem_append.mp h with h | h
      · exact hmore h
      · exact hstop h
    · rcases List.mem_append.mp h with h | h
      · exact hstop h
      · exact hmore h

/-- **A match goes on in the text.** -/
theorem run_follows (h : s' ∈ run r s) : Follows s s' := by
  induction r generalizing s s' with
  | empty =>
    obtain rfl := List.mem_singleton.mp h
    exact .refl
  | unit p =>
    unfold run at h
    split at h
    · cases h
    rename_i u rest hrest
    split at h
    · obtain rfl := List.mem_singleton.mp h
      exact ⟨⟨1, by simp [hrest], rfl, by simp [hrest]⟩, .inl rfl⟩
    · cases h
  | boundary =>
    unfold run at h
    split at h
    · obtain rfl := List.mem_singleton.mp h
      exact .refl
    · cases h
  | lineStart =>
    unfold run at h
    split at h
    · obtain rfl := List.mem_singleton.mp h
      exact .refl
    · cases h
  | seq r t ihr iht =>
    obtain ⟨u, hu, hs'⟩ := List.mem_flatMap.mp h
    exact (ihr hu).trans (iht hs')
  | alt r t ihr iht =>
    rcases List.mem_append.mp h with h | h
    · exact ihr h
    · exact iht h
  | many greedy min max r ih => exact iterate_follows (fun _ _ h => ih h) h
  | group r ih =>
    obtain ⟨u, hu, rfl⟩ := List.mem_map.mp h
    have hle := (ih hu).le
    exact ⟨(ih hu).rest, .inr ⟨s.pos, u.pos, rfl, le_rfl, hle, le_rfl⟩⟩

end Follows

/-- A match is a span of the text, and so is what is captured. -/
structure Match.Spans (text : Text) (m : Match) : Prop where
  le : m.index ≤ m.stop
  length : m.stop ≤ text.length
  group : ∀ a b, m.group = some (a, b) → m.index ≤ a ∧ a ≤ b ∧ b ≤ m.stop

section Spans

variable {r : Pattern} {text : Text} {m : Match}

theorem matchAt_spans {i : ℕ} (hi : i ≤ text.length) (h : matchAt r text i = some m) : m.Spans text := by
  obtain ⟨s, hs, rfl⟩ := Option.map_eq_some_iff.mp h
  have hfollows := run_follows (List.mem_of_mem_head? hs)
  obtain ⟨⟨k, hk, hpos, -⟩, hgroup⟩ := hfollows
  have hk' : k ≤ (text.drop i).length := hk
  rw [List.length_drop] at hk'
  have hpos' : s.pos = i + k := hpos
  refine ⟨by dsimp only; omega, by dsimp only; omega, fun a b hab => ?_⟩
  rcases hgroup with hnone | ⟨a', b', hsome, ha, hle, hb⟩
  · cases hab.symm.trans hnone
  · cases hab.symm.trans hsome
    exact ⟨ha, hle, hb⟩

theorem matchFrom_spans {fuel i : ℕ} (h : m ∈ matchFrom r text fuel i) : m.Spans text := by
  induction fuel generalizing i with
  | zero => cases h
  | succ fuel ih =>
    unfold matchFrom at h
    split at h
    · cases h
    rename_i hi
    split at h
    · exact ih h
    · rename_i m' hm'
      rcases List.mem_cons.mp h with rfl | h
      · exact matchAt_spans (not_lt.mp hi) hm'
      · exact ih h

/-- **All matches are spans of the text.** -/
theorem matchAll_spans (h : m ∈ matchAll r text) : m.Spans text := matchFrom_spans h

end Spans

/-! ### Writing expressions -/

/-- A text, to the letter. -/
def lit (text : Text) : Pattern := text.foldr (fun u r => .seq (.unit (· == u)) r) .empty

/-- A text, with the flag `i`. -/
def litI (text : Text) : Pattern := text.foldr (fun u r => .seq (.unit fun v => asciiLower v == asciiLower u) r) .empty

def oneOf : List Pattern → Pattern
  | [] => .unit fun _ => false
  | [r] => r
  | r :: rs => .alt r (oneOf rs)

def sequence : List Pattern → Pattern := List.foldr .seq .empty

def opt (r : Pattern) : Pattern := .many true 0 (some 1) r

def star (p : ℕ → Bool) : Pattern := .many true 0 none (.unit p)

def plus (p : ℕ → Bool) : Pattern := .many true 1 none (.unit p)

def atLeast (n : ℕ) (p : ℕ → Bool) : Pattern := .many true n none (.unit p)

def exactly (n : ℕ) (p : ℕ → Bool) : Pattern := .many true n (some n) (.unit p)

end WebAudit.Lib.Regex
