import Mathlib.Algebra.BigOperators.Group.List.Basic
import Mathlib.Tactic.Ring

/-!
# Tables as lists of rows

A table that only grows is a list of rows whose ids are their positions. These are the
totals of a column: over the rows that satisfy a condition (`total`), and how they move
when a row is appended, changed in place, or when every row is rewritten.
-/

namespace WebAudit.Lib

variable {ρ : Type}

/-- The sum of a column over the rows that satisfy `p`. -/
def total (p : ρ → Bool) (f : ρ → ℤ) (rows : List ρ) : ℤ := ((rows.filter p).map f).sum

variable {p q : ρ → Bool} {f g : ρ → ℤ} {rows : List ρ}

@[simp] theorem total_nil : total p f [] = 0 := rfl

theorem total_cons (r : ρ) : total p f (r :: rows) = (if p r then f r else 0) + total p f rows := by
  unfold total
  by_cases h : p r <;> simp [h]

theorem total_append (rows' : List ρ) : total p f (rows ++ rows') = total p f rows + total p f rows' := by
  simp [total]

@[simp] theorem total_true : total (fun _ => true) f rows = (rows.map f).sum := by simp [total]

/-- Only the rows of the table matter. -/
theorem total_congr (hp : ∀ r ∈ rows, p r = q r) (hf : ∀ r ∈ rows, p r → f r = g r) :
    total p f rows = total q g rows := by
  induction rows with
  | nil => rfl
  | cons r rows ih =>
    rw [total_cons, total_cons, ih (fun r hr => hp r (by simp [hr])) fun r hr => hf r (by simp [hr]),
      ← hp r (by simp)]
    by_cases h : p r
    · simp [h, hf r (by simp) h]
    · simp [h]

theorem total_eq_zero (h : ∀ r ∈ rows, p r = false) : total p f rows = 0 := by
  unfold total
  rw [List.filter_eq_nil_iff.mpr fun r hr => by simp [h r hr]]
  rfl

theorem total_filter : total p f (rows.filter q) = total (fun r => p r && q r) f rows := by
  unfold total
  rw [List.filter_filter]

theorem total_map {ρ' : Type} {rows : List ρ'} (h : ρ' → ρ) : total p f (rows.map h) = total (p ∘ h) (f ∘ h) rows := by
  unfold total
  rw [List.filter_map, List.map_map]

/-- The rows that satisfy `p`, split by `q`. -/
theorem total_split (q : ρ → Bool) : total p f rows = total (fun r => p r && q r) f rows + total (fun r => p r && !q r) f rows := by
  induction rows with
  | nil => rfl
  | cons r rows ih =>
    rw [total_cons, total_cons, total_cons, ih]
    by_cases hp : p r <;> by_cases hq : q r
    · simp [hp, hq]
      ring
    · simp [hp, hq]
      ring
    · simp [hp]
    · simp [hp]

theorem total_mono (h : ∀ r ∈ rows, p r → f r ≤ g r) : total p f rows ≤ total p g rows := by
  induction rows with
  | nil => exact le_rfl
  | cons r rows ih =>
    rw [total_cons, total_cons]
    have hrows := ih fun r hr => h r (List.mem_cons_of_mem _ hr)
    split
    · rename_i hp
      have := h r List.mem_cons_self hp
      omega
    · omega

theorem total_nonneg (h : ∀ r ∈ rows, p r → 0 ≤ f r) : 0 ≤ total p f rows := by
  induction rows with
  | nil => exact le_rfl
  | cons r rows ih =>
    rw [total_cons]
    have hrows := ih fun r hr => h r (List.mem_cons_of_mem _ hr)
    split
    · rename_i hp
      have := h r List.mem_cons_self hp
      omega
    · omega

/-- One of the rows, where none is negative. -/
theorem le_total {r : ρ} (h : ∀ r ∈ rows, p r → 0 ≤ f r) (hr : r ∈ rows) (hp : p r) : f r ≤ total p f rows := by
  induction rows with
  | nil => cases hr
  | cons r' rows ih =>
    have hrows : ∀ r ∈ rows, p r → 0 ≤ f r := fun r hr => h r (List.mem_cons_of_mem _ hr)
    rw [total_cons]
    rcases List.mem_cons.mp hr with rfl | hr
    · rw [if_pos hp]
      have := total_nonneg hrows
      omega
    · have hle := ih hrows hr
      split
      · rename_i hp'
        have := h r' List.mem_cons_self hp'
        omega
      · omega

/-- The total when one row is changed in place. -/
theorem sum_map_modify {i : ℕ} {r : ρ} (h : ρ → ρ) (hi : rows[i]? = some r) :
    ((rows.modify i h).map f).sum = (rows.map f).sum + (f (h r) - f r) := by
  induction rows generalizing i with
  | nil => simp at hi
  | cons r' rows ih =>
    cases i with
    | zero =>
      obtain rfl : r' = r := by simpa using hi
      simp only [List.modify_zero_cons, List.map_cons, List.sum_cons]
      ring
    | succ i =>
      have := ih (i := i) (by simpa using hi)
      simp only [List.modify_succ_cons, List.map_cons, List.sum_cons, this]
      ring

/-- The total when the rows that satisfy `p` are rewritten to carry `0`, and no others are. -/
theorem sum_map_zeroed (rows : List ρ) {h : ρ → ρ} (hz : ∀ r ∈ rows, p r → f (h r) = 0)
    (hk : ∀ r ∈ rows, p r = false → f (h r) = f r) :
    ((rows.map h).map f).sum = (rows.map f).sum - total p f rows := by
  induction rows with
  | nil => rfl
  | cons r rows ih =>
    have := ih (fun r hr => hz r (by simp [hr])) fun r hr => hk r (by simp [hr])
    rw [total_cons]
    simp only [List.map_cons, List.sum_cons, this]
    by_cases hp : p r
    · simp only [hp, if_true, hz r (by simp) hp]
      ring
    · simp only [hp, hk r (by simp) (by simpa using hp)]
      simp
      ring

/-! ### A row replaced -/

/-- The rows that satisfy `p` when one row is replaced. -/
theorem countP_set_add {i : ℕ} {r : ρ} (p : ρ → Bool) (r' : ρ) (h : rows[i]? = some r) :
    (rows.set i r').countP p + (if p r then 1 else 0) = rows.countP p + if p r' then 1 else 0 := by
  induction rows generalizing i with
  | nil => simp at h
  | cons q rows ih =>
    cases i with
    | zero =>
      obtain rfl : q = r := by simpa using h
      rw [List.set_cons_zero, List.countP_cons, List.countP_cons]
      omega
    | succ i =>
      have := ih (i := i) (by simpa using h)
      rw [List.set_cons_succ, List.countP_cons, List.countP_cons]
      omega

/-- What holds of all rows holds of all rows when one is replaced by a row of which it holds. -/
theorem forall_mem_set {P : ρ → Prop} {i : ℕ} {r' : ρ} (h : ∀ r ∈ rows, P r) (hr' : P r') :
    ∀ r ∈ rows.set i r', P r := by
  intro r hr
  rcases List.mem_or_eq_of_mem_set hr with hr | rfl
  · exact h r hr
  · exact hr'

/-- The same, for a row appended. -/
theorem forall_mem_concat {P : ρ → Prop} {r' : ρ} (h : ∀ r ∈ rows, P r) (hr' : P r') : ∀ r ∈ rows ++ [r'], P r := by
  intro r hr
  rcases List.mem_append.mp hr with hr | hr
  · exact h r hr
  · obtain rfl := List.mem_singleton.mp hr
    exact hr'

/-- The same, for a row changed in place. -/
theorem forall_mem_modify {P : ρ → Prop} {f : ρ → ρ} (h : ∀ r ∈ rows, P r) (hf : ∀ r, P r → P (f r)) (i : ℕ) :
    ∀ r ∈ rows.modify i f, P r := by
  induction rows generalizing i with
  | nil => simp
  | cons q rows ih =>
    have hq : P q := h q (List.mem_cons_self ..)
    have hrows : ∀ r ∈ rows, P r := fun r hr => h r (List.mem_cons_of_mem _ hr)
    intro r hr
    cases i with
    | zero =>
      rcases List.mem_cons.mp hr with rfl | hr
      · exact hf q hq
      · exact hrows r hr
    | succ i =>
      rcases List.mem_cons.mp hr with rfl | hr
      · exact hq
      · exact ih hrows i r hr

/-- A row of which something holds is still there when one is replaced by a row of which it holds too. -/
theorem exists_mem_set {P : ρ → Prop} {i : ℕ} {r r' : ρ} (hi : rows[i]? = some r) (h : ∃ x ∈ rows, P x)
    (hr' : P r → P r') : ∃ x ∈ rows.set i r', P x := by
  obtain ⟨x, hx, hp⟩ := h
  obtain ⟨j, hj⟩ := List.mem_iff_getElem?.mp hx
  by_cases e : i = j
  · subst e
    obtain rfl : r = x := by simpa [hi] using hj
    exact ⟨r', List.mem_set (List.getElem?_eq_some_iff.mp hi).1 _, hr' hp⟩
  · refine ⟨x, List.mem_of_getElem? (i := j) ?_, hp⟩
    rw [List.getElem?_set_ne e]
    exact hj

/-- Two rows that satisfy `p`, where at most one does, are the same. -/
theorem eq_of_countP_le_one {p : ρ → Bool} {r r' : ρ} (h : rows.countP p ≤ 1) (hr : r ∈ rows) (hr' : r' ∈ rows)
    (hp : p r = true) (hp' : p r' = true) : r = r' := by
  rw [List.countP_eq_length_filter] at h
  have hmem := List.mem_filter.mpr ⟨hr, hp⟩
  have hmem' := List.mem_filter.mpr ⟨hr', hp'⟩
  rcases hf : rows.filter p with _ | ⟨x, _ | ⟨y, rest⟩⟩ <;> rw [hf] at h hmem hmem'
  · cases hmem
  · rw [List.mem_singleton.mp hmem, List.mem_singleton.mp hmem']
  · simp at h

/-! ### Sums over rows that are there once -/

/-- A sum after the value of one row has gone down by `n`. -/
theorem sum_map_lower {a : ρ} {f g : ρ → ℕ} {n : ℕ} (hnd : rows.Nodup) (ha : a ∈ rows)
    (hsame : ∀ x ∈ rows, x ≠ a → g x = f x) (hn : g a + n = f a) : (rows.map g).sum + n = (rows.map f).sum := by
  induction rows with
  | nil => cases ha
  | cons x rows ih =>
    rw [List.map_cons, List.map_cons, List.sum_cons, List.sum_cons]
    obtain ⟨hx, hnd⟩ := List.nodup_cons.mp hnd
    rcases List.mem_cons.mp ha with rfl | ha
    · have : rows.map g = rows.map f :=
        List.map_congr_left fun y hy => hsame y (List.mem_cons_of_mem _ hy) fun e => hx (e ▸ hy)
      rw [this]
      omega
    · have := ih hnd ha fun y hy => hsame y (List.mem_cons_of_mem _ hy)
      have hne : g x = f x := hsame x (List.mem_cons_self ..) fun e => hx (e ▸ ha)
      omega

/-! ### Where a row stands -/

/-- After a row is replaced, if it is there. -/
theorem getElem?_set_split {i j : ℕ} {y z : ρ} (hj : (rows.set i y)[j]? = some z) : j = i ∧ z = y ∨ j ≠ i ∧ rows[j]? = some z := by
  rw [List.getElem?_set] at hj
  split at hj
  · rename_i heq
    split at hj
    · exact Or.inl ⟨heq.symm, (Option.some.inj hj).symm⟩
    · cases hj
  · rename_i hne
    exact Or.inr ⟨Ne.symm hne, hj⟩

/-- After a row is replaced. -/
theorem getElem?_set_cases {i j : ℕ} {x y z : ρ} (_hi : rows[i]? = some x) (hj : (rows.set i y)[j]? = some z) :
    j = i ∧ z = y ∨ j ≠ i ∧ rows[j]? = some z := getElem?_set_split hj

/-- After a row is appended. -/
theorem getElem?_concat_cases {j : ℕ} {x y : ρ} (hj : (rows ++ [x])[j]? = some y) : y = x ∨ rows[j]? = some y := by
  rw [List.getElem?_append] at hj
  split at hj
  · exact Or.inr hj
  · rw [List.getElem?_singleton] at hj
    split at hj
    · exact Or.inl (Option.some.inj hj).symm
    · cases hj

/-- The row appended is the last. -/
theorem getElem?_concat_index {j : ℕ} {x y : ρ} (hj : (rows ++ [x])[j]? = some y) :
    rows[j]? = some y ∨ j = rows.length ∧ y = x := by
  rcases Nat.lt_trichotomy j rows.length with hlt | rfl | hgt
  · rw [List.getElem?_append_left hlt] at hj
    exact Or.inl hj
  · rw [List.getElem?_concat_length] at hj
    exact Or.inr ⟨rfl, (Option.some.inj hj).symm⟩
  · rw [List.getElem?_eq_none (by rw [List.length_append, List.length_singleton]; omega)] at hj
    cases hj

end WebAudit.Lib
