import Mathlib.Data.List.Nodup

/-!
# Rows inserted under a unique key

An insert that skips duplicates creates the rows whose key is not there yet, the first of those that share one
(`created`). What comes later never takes the place of what came before (`created_append`).
-/

namespace WebAudit.Lib

variable {ρ κ : Type} [DecidableEq κ] {key : ρ → κ} {seen seen' : List κ} {rows rows' : List ρ} {r : ρ}

/-- The rows that are created where the keys `seen` are taken. -/
def created (key : ρ → κ) (seen : List κ) : List ρ → List ρ
  | [] => []
  | r :: rest => if key r ∈ seen then created key seen rest else r :: created key (key r :: seen) rest

@[simp] theorem created_nil : created key seen [] = [] := rfl

theorem created_cons_of_mem (h : key r ∈ seen) : created key seen (r :: rows) = created key seen rows := if_pos h

theorem created_cons_of_not_mem (h : key r ∉ seen) : created key seen (r :: rows) = r :: created key (key r :: seen) rows := if_neg h

/-- Only which keys are taken matters. -/
theorem created_congr (h : ∀ k, k ∈ seen ↔ k ∈ seen') : created key seen rows = created key seen' rows := by
  induction rows generalizing seen seen' with
  | nil => rfl
  | cons r rows ih =>
    by_cases hr : key r ∈ seen
    · rw [created_cons_of_mem hr, created_cons_of_mem ((h _).mp hr), ih h]
    · have hcons : ∀ k, k ∈ key r :: seen ↔ k ∈ key r :: seen' := fun k => by rw [List.mem_cons, List.mem_cons, h k]
      rw [created_cons_of_not_mem hr, created_cons_of_not_mem fun hr' => hr ((h _).mpr hr'), ih hcons]

/-- **What is inserted later** is created where all that came before is taken. -/
theorem created_append (rows rows' : List ρ) :
    created key seen (rows ++ rows') = created key seen rows ++ created key (rows.map key ++ seen) rows' := by
  induction rows generalizing seen with
  | nil => rfl
  | cons r rows ih =>
    by_cases hr : key r ∈ seen
    · rw [List.cons_append, created_cons_of_mem hr, created_cons_of_mem hr, ih]
      congr 1
      refine created_congr fun k => ?_
      rw [List.map_cons, List.cons_append, List.mem_cons, or_iff_right_of_imp]
      rintro rfl
      exact List.mem_append_right _ hr
    · rw [List.cons_append, created_cons_of_not_mem hr, created_cons_of_not_mem hr, ih, List.cons_append]
      congr 2
      refine created_congr fun k => ?_
      simp only [List.map_cons, List.cons_append, List.mem_append, List.mem_cons]
      exact or_left_comm

theorem created_sublist : (created key seen rows).Sublist rows := by
  induction rows generalizing seen with
  | nil => exact List.Sublist.slnil
  | cons r rows ih =>
    by_cases hr : key r ∈ seen
    · rw [created_cons_of_mem hr]
      exact ih.cons r
    · rw [created_cons_of_not_mem hr]
      exact ih.cons_cons r

/-- Where no key is taken. -/
theorem created_of_disjoint (h : ∀ r ∈ rows, key r ∉ seen) : created key seen rows = created key [] rows := by
  have hgeneral : ∀ (taken : List κ) (rows : List ρ), (∀ r ∈ rows, key r ∉ seen) → created key (taken ++ seen) rows = created key taken rows := by
    intro taken rows h
    induction rows generalizing taken with
    | nil => rfl
    | cons r rows ih =>
      have hr := h r List.mem_cons_self
      have hrest := fun r' hr' => h r' (List.mem_cons_of_mem _ hr')
      by_cases hmem : key r ∈ taken
      · rw [created_cons_of_mem (List.mem_append_left _ hmem), created_cons_of_mem hmem, ih taken hrest]
      · have hnot : key r ∉ taken ++ seen := fun h' => (List.mem_append.mp h').elim hmem hr
        rw [created_cons_of_not_mem hnot, created_cons_of_not_mem hmem]
        exact congrArg (r :: ·) (ih (key r :: taken) hrest)
  exact hgeneral [] rows h

/-- What is kept of the rows may be taken first, if the key is. -/
theorem created_map {ρ' : Type} {key' : ρ' → κ} (f : ρ → ρ') (hkey : ∀ r, key' (f r) = key r) :
    (created key seen rows).map f = created key' seen (rows.map f) := by
  induction rows generalizing seen with
  | nil => rfl
  | cons r rows ih =>
    rw [List.map_cons]
    by_cases hr : key r ∈ seen
    · rw [created_cons_of_mem hr, created_cons_of_mem ((hkey r).symm ▸ hr), ih]
    · rw [created_cons_of_not_mem hr, created_cons_of_not_mem ((hkey r).symm ▸ hr), hkey, List.map_cons, ih]

end WebAudit.Lib
