import Mathlib.Data.Int.Log
import Mathlib.Data.Rat.Floor
import Mathlib.Tactic.Positivity

/-!
# Doubles

A double has 53 binary digits, and an operation on doubles gives the double next to the exact result, of two the one with
an even last digit. `toDouble` is that, for zero and for what is positive and neither below the least normal double nor above
the greatest one. An integer below 2^53 is a double (`toDouble_int`), and the quotient of two of them, rounded to a double and
then down, is the integer quotient (`floor_toDouble_div`).
-/

namespace WebAudit.Lib

/-- To the nearest integer; from the middle, to the even one. -/
def roundEven (x : ℚ) : ℤ :=
  let n := ⌊x⌋
  if x - n < 1 / 2 then n
  else if 1 / 2 < x - n then n + 1
  else if n % 2 = 0 then n
  else n + 1

/-- What the last digit of a double next to `q` stands for. -/
def ulp (q : ℚ) : ℚ := 2 ^ (Int.log 2 q - 52)

def toDouble (q : ℚ) : ℚ := roundEven (q / ulp q) * ulp q

section Rounding

variable {x : ℚ} {n : ℤ}

theorem le_roundEven (h : (n : ℚ) ≤ x) : n ≤ roundEven x := by
  have hfloor : n ≤ ⌊x⌋ := Int.le_floor.mpr h
  unfold roundEven
  dsimp only
  split_ifs <;> omega

theorem roundEven_le_add_half (x : ℚ) : (roundEven x : ℚ) ≤ x + 1 / 2 := by
  have hfloor := Int.floor_le x
  unfold roundEven
  dsimp only
  split_ifs <;> push_cast <;> linarith

theorem roundEven_lt (h : x + 1 / 2 < n) : roundEven x < n := by exact_mod_cast (roundEven_le_add_half x).trans_lt h

theorem roundEven_intCast (n : ℤ) : roundEven n = n := by
  unfold roundEven
  simp

end Rounding

section Doubles

variable {q : ℚ}

theorem ulp_pos (q : ℚ) : 0 < ulp q := zpow_pos (by norm_num) _

theorem ulp_mul_le (h : 0 < q) : ulp q * 2 ^ 52 ≤ q := by
  have hlog : (2 : ℚ) ^ Int.log 2 q ≤ q := by exact_mod_cast Int.zpow_log_le_self (b := 2) (by norm_num) h
  have hsplit : ulp q * 2 ^ 52 = (2 : ℚ) ^ Int.log 2 q := by
    unfold ulp
    rw [← zpow_natCast, ← zpow_add₀ (by norm_num)]
    congr 1
    omega
  rwa [hsplit]

/-- Below 2^53, a unit is a number of last digits. -/
theorem exists_mul_ulp (h₀ : 0 < q) (h : q < 2 ^ 53) : ∃ N : ℤ, (N : ℚ) * ulp q = 1 := by
  have hlog : Int.log 2 q < 53 := (Int.lt_zpow_iff_log_lt (by norm_num) h₀).mp (by exact_mod_cast h)
  refine ⟨2 ^ (52 - Int.log 2 q).toNat, ?_⟩
  unfold ulp
  rw [Int.cast_pow, Int.cast_ofNat, ← zpow_natCast, ← zpow_add₀ (by norm_num), Int.toNat_of_nonneg (by omega)]
  have hexp : 52 - Int.log 2 q + (Int.log 2 q - 52) = 0 := by omega
  rw [hexp, zpow_zero]

theorem toDouble_zero : toDouble 0 = 0 := by
  unfold toDouble
  rw [zero_div, ← Int.cast_zero, roundEven_intCast, Int.cast_zero, zero_mul]

theorem toDouble_int {n : ℤ} (h₀ : 0 ≤ n) (h : n < 2 ^ 53) : toDouble n = n := by
  rcases h₀.eq_or_lt with rfl | hpos
  · exact toDouble_zero
  · have hq : (0 : ℚ) < n := by exact_mod_cast hpos
    obtain ⟨N, hN⟩ := exists_mul_ulp hq (by exact_mod_cast h)
    have hu := ulp_pos (n : ℚ)
    have hscaled : (n : ℚ) / ulp n = ((n * N : ℤ) : ℚ) := by
      rw [div_eq_iff hu.ne', Int.cast_mul, mul_assoc, hN, mul_one]
    unfold toDouble
    rw [hscaled, roundEven_intCast, Int.cast_mul, mul_assoc, hN, mul_one]

/-- **Rounding does not reach the next integer.** -/
theorem floor_toDouble_div {x d : ℤ} (h₀ : 0 ≤ x) (h : x < 2 ^ 53) (hd : 0 < d) : ⌊toDouble (x / d)⌋ = x / d := by
  rcases h₀.eq_or_lt with rfl | hpos
  · rw [Int.cast_zero, zero_div, toDouble_zero, Int.floor_zero, Int.zero_ediv]
  have hd' : (0 : ℚ) < d := by exact_mod_cast hd
  have hq : (0 : ℚ) < (x : ℚ) / d := div_pos (by exact_mod_cast hpos) hd'
  have hx : (x : ℚ) < 2 ^ 53 := by exact_mod_cast h
  have hle : (x : ℚ) / d ≤ x := div_le_self (by exact_mod_cast h₀) (by exact_mod_cast hd)
  obtain ⟨N, hN⟩ := exists_mul_ulp hq (hle.trans_lt hx)
  set k := x / d with hk
  set u := ulp ((x : ℚ) / d) with hu
  have hu₀ : 0 < u := ulp_pos _
  have hscaled : (x : ℚ) / d / u = x / d * N := by
    rw [div_eq_iff hu₀.ne', mul_assoc, hN, mul_one]
  have hlow : (k : ℚ) ≤ x / d := by
    rw [le_div_iff₀ hd']
    exact_mod_cast Int.ediv_mul_le x hd.ne'
  have hhigh : (x : ℚ) + 1 ≤ (k + 1) * d := by exact_mod_cast Int.lt_ediv_add_one_mul_self x hd
  have hN₀ : (0 : ℚ) < N := by
    by_contra hneg
    have := mul_nonpos_of_nonpos_of_nonneg (not_lt.mp hneg) hu₀.le
    linarith
  -- the last digit is so small that the next integer is more than half of it away
  have hwide : (d : ℚ) < 2 * N := by
    have hulp : u * 2 ^ 52 ≤ x / d := ulp_mul_le hq
    rw [le_div_iff₀ hd'] at hulp
    have hmul := mul_le_mul_of_nonneg_right hulp hN₀.le
    have hleft : u * 2 ^ 52 * d * N = d * 2 ^ 52 := by
      rw [show u * 2 ^ 52 * d * N = d * 2 ^ 52 * (N * u) by ring, hN, mul_one]
    rw [hleft] at hmul
    have hright := mul_lt_mul_of_pos_right hx hN₀
    linarith
  rw [Int.floor_eq_iff]
  unfold toDouble
  rw [hscaled]
  constructor
  · have hround : k * N ≤ roundEven (x / d * N) := by
      apply le_roundEven
      rw [Int.cast_mul]
      exact mul_le_mul_of_nonneg_right hlow hN₀.le
    have hround' : ((k * N : ℤ) : ℚ) ≤ roundEven (x / d * N) := by exact_mod_cast hround
    calc (k : ℚ) = ((k * N : ℤ) : ℚ) * u := by rw [Int.cast_mul, mul_assoc, hN, mul_one]
      _ ≤ _ := mul_le_mul_of_nonneg_right hround' hu₀.le
  · have hround : roundEven (x / d * N) < (k + 1) * N := by
      apply roundEven_lt
      push_cast
      have hgap : (x : ℚ) / d * N ≤ (k + 1) * N - N / d := by
        have hquot : (x : ℚ) / d ≤ k + 1 - 1 / d := by
          rw [div_le_iff₀ hd', sub_mul, one_div, inv_mul_cancel₀ hd'.ne']
          linarith
        have := mul_le_mul_of_nonneg_right hquot hN₀.le
        rwa [sub_mul, one_div_mul_eq_div] at this
      have hhalf : (1 : ℚ) / 2 < N / d := by
        rw [lt_div_iff₀ hd']
        linarith
      linarith
    have hround' : (roundEven (x / d * N) : ℚ) < ((k + 1) * N : ℤ) := by exact_mod_cast hround
    calc (roundEven (x / d * N) : ℚ) * u < (((k + 1) * N : ℤ) : ℚ) * u := mul_lt_mul_of_pos_right hround' hu₀
      _ = k + 1 := by rw [Int.cast_mul, mul_assoc, hN, mul_one, Int.cast_add, Int.cast_one]

end Doubles

end WebAudit.Lib
