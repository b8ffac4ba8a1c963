import WebAudit.Lib.Uri

/-!
# Numerals

Numbers in decimal, as they are written into texts, and groups of one to four hexadecimal digits.
-/

namespace WebAudit.Lib

open WebAudit.Lib.Uri

variable {n n' u v : ℕ} {text : Text}

/-! ### Decimal -/

/-- Without leading zeros. -/
def decimalDigits (n : ℕ) : Text := (Nat.toDigits 10 n).map Char.toNat

/-- The number these digits write. -/
def decimalValue (text : Text) : ℕ := text.foldl (fun v u => 10 * v + (u - 0x30)) 0

theorem mem_decimalDigits (h : u ∈ decimalDigits n) : 0x30 ≤ u ∧ u ≤ 0x39 := by
  obtain ⟨c, hc, rfl⟩ := List.mem_map.mp h
  have hdigit := Nat.isDigit_of_mem_toDigits (by decide) (by decide) hc
  rw [Char.isDigit, Bool.and_eq_true, decide_eq_true_eq, decide_eq_true_eq] at hdigit
  exact ⟨UInt32.le_iff_toNat_le.mp hdigit.1, UInt32.le_iff_toNat_le.mp hdigit.2⟩

theorem decimalValue_decimalDigits (n : ℕ) : decimalValue (decimalDigits n) = n := by
  unfold decimalValue decimalDigits
  rw [List.foldl_map]
  exact Nat.ofDigitChars_ten_toDigits

theorem decimalDigits_injective : Function.Injective decimalDigits := Function.LeftInverse.injective decimalValue_decimalDigits

/-! ### Hexadecimal -/

/-- One to four hexadecimal digits. -/
structure IsGroup (text : Text) : Prop where
  ne_nil : text ≠ []
  length_le : text.length ≤ 4
  digits : ∀ u ∈ text, (hexDigit u).isSome = true

instance : DecidablePred IsGroup := fun text =>
  decidable_of_iff (text ≠ [] ∧ text.length ≤ 4 ∧ ∀ u ∈ text, (hexDigit u).isSome = true)
    ⟨fun h => ⟨h.1, h.2.1, h.2.2⟩, fun h => ⟨h.ne_nil, h.length_le, h.digits⟩⟩

/-- The number these digits write. -/
def hexValue (text : Text) : ℕ := text.foldl (fun v u => 0x10 * v + (hexDigit u).getD 0) 0

/-- A digit in lower case. -/
def hexLetter (d : ℕ) : ℕ := if d < 10 then 0x30 + d else 0x57 + d

/-- In lower case, and without leading zeros. -/
def hextet (v : ℕ) : Text :=
  if v < 0x10 then [hexLetter v]
  else if v < 0x100 then [hexLetter (v / 0x10), hexLetter (v % 0x10)]
  else if v < 0x1000 then [hexLetter (v / 0x100), hexLetter (v / 0x10 % 0x10), hexLetter (v % 0x10)]
  else [hexLetter (v / 0x1000), hexLetter (v / 0x100 % 0x10), hexLetter (v / 0x10 % 0x10), hexLetter (v % 0x10)]

theorem hexDigit_bounds (h : hexDigit u = some v) :
    v < 0x10 ∧ ((0x30 ≤ u ∧ u ≤ 0x39) ∨ (0x41 ≤ u ∧ u ≤ 0x46) ∨ (0x61 ≤ u ∧ u ≤ 0x66)) := by
  unfold hexDigit at h
  split_ifs at h <;> cases h <;> omega

theorem hexDigit_hexLetter (h : v < 0x10) : hexDigit (hexLetter v) = some v := by
  unfold hexDigit hexLetter
  split_ifs <;> first | omega | (congr 1; omega)

theorem IsGroup.letters (h : IsGroup text) :
    ∀ u ∈ text, (0x30 ≤ u ∧ u ≤ 0x39) ∨ (0x41 ≤ u ∧ u ≤ 0x46) ∨ (0x61 ≤ u ∧ u ≤ 0x66) := by
  intro u hu
  obtain ⟨v, hv⟩ := Option.isSome_iff_exists.mp (h.digits u hu)
  exact (hexDigit_bounds hv).2

theorem isGroup_hextet (h : v < 0x10000) : IsGroup (hextet v) := by
  have hone (d : ℕ) (hd : d < 0x10) : (hexDigit (hexLetter d)).isSome = true := by rw [hexDigit_hexLetter hd]; rfl
  unfold hextet
  split_ifs <;> refine ⟨List.cons_ne_nil _ _, by simp, fun u hu => ?_⟩ <;>
    simp only [List.mem_cons, List.not_mem_nil, or_false] at hu
  · exact hu ▸ hone _ (by omega)
  · rcases hu with rfl | rfl <;> exact hone _ (by omega)
  · rcases hu with rfl | rfl | rfl <;> exact hone _ (by omega)
  · rcases hu with rfl | rfl | rfl | rfl <;> exact hone _ (by omega)

theorem hexValue_hextet (h : v < 0x10000) : hexValue (hextet v) = v := by
  have hone (d : ℕ) (hd : d < 0x10) : (hexDigit (hexLetter d)).getD 0 = d := by rw [hexDigit_hexLetter hd]; rfl
  unfold hexValue hextet
  split_ifs <;> simp only [List.foldl_cons, List.foldl_nil]
  · rw [hone _ (by omega)]
    omega
  · rw [hone _ (by omega), hone _ (by omega)]
    omega
  · rw [hone _ (by omega), hone _ (by omega), hone _ (by omega)]
    omega
  · rw [hone _ (by omega), hone _ (by omega), hone _ (by omega), hone _ (by omega)]
    omega

end WebAudit.Lib
