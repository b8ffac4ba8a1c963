import Mathlib.Algebra.BigOperators.Group.List.Basic
import Mathlib.Data.List.Nodup
import Mathlib.Tactic.Ring
import Mathlib.Tactic.Linarith

/-!
# Dividing an amount in proportion to weights

`c` is divided among parts with weights that add up to `W`: each part gets the quotient
`w * c / W` rounded down, and what the rounding left over is handed out one by one. The
leftover is nonnegative and at most the number of parts (`leftover_nonneg`,
`leftover_le`), so one unit each is enough, and adding one at some of the positions adds
their number to the sum (`sum_bump`).
-/

namespace WebAudit.Lib

/-- The rounded-down shares times `W` add up to `c` times the weights at most, and to no less
than that minus `W` for each part. -/
theorem floor_sum_bounds {W c : ℤ} (hW : 0 < W) (ws : List ℤ) :
    (ws.map fun w => w * c / W).sum * W ≤ ws.sum * c ∧
      ws.sum * c ≤ (ws.map fun w => w * c / W).sum * W + ws.length * W := by
  induction ws with
  | nil => simp
  | cons w ws ih =>
    have h₁ := Int.ediv_mul_le (w * c) (ne_of_gt hW)
    have h₂ := Int.lt_ediv_add_one_mul_self (w * c) hW
    simp only [List.map_cons, List.sum_cons, List.length_cons, Nat.cast_add, Nat.cast_one]
    constructor <;> nlinarith [ih.1, ih.2]

/-- Rounding down never hands out more than there is. -/
theorem leftover_nonneg {W c : ℤ} (hW : 0 < W) {ws : List ℤ} (hws : ws.sum = W) :
    0 ≤ c - (ws.map fun w => w * c / W).sum := by
  have h := (floor_sum_bounds (c := c) hW ws).1
  rw [hws, mul_comm W c] at h
  have := le_of_mul_le_mul_right h hW
  omega

/-- What is left over is at most one for each part. -/
theorem leftover_le {W c : ℤ} (hW : 0 < W) {ws : List ℤ} (hws : ws.sum = W) :
    c - (ws.map fun w => w * c / W).sum ≤ ws.length := by
  have h := (floor_sum_bounds (c := c) hW ws).2
  rw [hws, mul_comm W c, ← add_mul] at h
  have := le_of_mul_le_mul_right h hW
  omega

/-- Adding one at the positions listed in `bumped`. -/
theorem sum_bump {α : Type} (f : α → ℤ) (xs : List α) {bumped : List ℕ} (hnd : bumped.Nodup)
    (hlt : ∀ i ∈ bumped, i < xs.length) :
    (xs.zipIdx.map fun p => if p.2 ∈ bumped then f p.1 + 1 else f p.1).sum = (xs.map f).sum + bumped.length := by
  have hsplit : (xs.zipIdx.map fun p => if p.2 ∈ bumped then f p.1 + 1 else f p.1).sum
      = (xs.zipIdx.map fun p => f p.1).sum + ((xs.zipIdx.map (·.2)).filter (· ∈ bumped)).length := by
    generalize xs.zipIdx = ps
    induction ps with
    | nil => rfl
    | cons p ps ih =>
      simp only [List.map_cons, List.sum_cons, ih]
      by_cases hp : p.2 ∈ bumped <;> simp [hp] <;> ring
  have hperm : ((xs.zipIdx.map (·.2)).filter (· ∈ bumped)).Perm bumped := by
    have hidx : xs.zipIdx.map (·.2) = List.range' 0 xs.length := List.zipIdx_map_snd 0 xs
    rw [hidx]
    refine (List.perm_ext_iff_of_nodup ((List.nodup_range' (h := by decide)).filter _) hnd).mpr fun i => ?_
    simp only [List.mem_filter, List.mem_range'_1, decide_eq_true_eq]
    constructor
    · exact fun h => h.2
    · exact fun h => ⟨⟨Nat.zero_le _, by simpa using hlt i h⟩, h⟩
  have hfst : (xs.zipIdx.map fun p => f p.1) = xs.map f := by
    rw [show (fun p : α × ℕ => f p.1) = f ∘ Prod.fst from rfl, ← List.map_map, List.zipIdx_map_fst]
  rw [hsplit, hperm.length_eq, hfst]

end WebAudit.Lib
