import Mathlib.Data.List.GetD

/-!
# Parts at their places

`At xs i part` says that a part stands in a list from place `i` on. Numbers of two and four octets
are laid out with the lowest octet first.
-/

namespace WebAudit.Lib

/-! ### Places -/

section Places

variable {α : Type} {xs part part' x y : List α} {i k n : ℕ}

/-- The part stands in the list from this place on. -/
def At (xs : List α) (i : ℕ) (part : List α) : Prop := ∃ before after, xs = before ++ (part ++ after) ∧ before.length = i

theorem at_of_append (before part after : List α) : At (before ++ (part ++ after)) before.length part := ⟨before, after, rfl, rfl⟩

theorem At.length_le (h : At xs i part) : i + part.length ≤ xs.length := by
  obtain ⟨before, after, rfl, rfl⟩ := h
  simp only [List.length_append]
  omega

theorem At.append_iff : At xs i (x ++ y) ↔ At xs i x ∧ At xs (i + x.length) y := by
  constructor
  · rintro ⟨before, after, rfl, rfl⟩
    refine ⟨⟨before, y ++ after, by rw [List.append_assoc], rfl⟩, before ++ x, after, ?_, List.length_append ..⟩
    simp only [List.append_assoc]
  · rintro ⟨⟨before, after, rfl, rfl⟩, before', after', h, hlength⟩
    rw [← List.append_assoc] at h
    obtain ⟨rfl, rfl⟩ := List.append_inj h (by rw [List.length_append, hlength])
    exact ⟨before, after', by simp only [List.append_assoc], rfl⟩

theorem At.take_drop (h : At xs i part) : (xs.drop i).take part.length = part := by
  obtain ⟨before, after, rfl, rfl⟩ := h
  rw [List.drop_left, List.take_left]

theorem at_take_drop (h : i + n ≤ xs.length) : At xs i ((xs.drop i).take n) := by
  refine ⟨xs.take i, (xs.drop i).drop n, ?_, List.length_take_of_le (by omega)⟩
  rw [List.take_append_drop, List.take_append_drop]

theorem at_iff : At xs i part ↔ i + part.length ≤ xs.length ∧ (xs.drop i).take part.length = part :=
  ⟨fun h => ⟨h.length_le, h.take_drop⟩, fun h => h.2 ▸ at_take_drop h.1⟩

instance [DecidableEq α] (xs : List α) (i : ℕ) (part : List α) : Decidable (At xs i part) := decidable_of_iff' _ at_iff

theorem At.getD (h : At xs i part) (hk : k < part.length) (d : α) : xs.getD (i + k) d = part.getD k d := by
  obtain ⟨before, after, rfl, rfl⟩ := h
  rw [List.getD_append_right _ _ _ _ (by omega), Nat.add_sub_cancel_left, List.getD_append _ _ _ _ hk]

end Places

/-! ### Numbers -/

/-- The lowest octet first. -/
def le16 (v : UInt16) : List UInt8 := [UInt8.ofNat v.toNat, UInt8.ofNat (v.toNat / 0x100)]

def le32 (v : UInt32) : List UInt8 :=
  [UInt8.ofNat v.toNat, UInt8.ofNat (v.toNat / 0x100), UInt8.ofNat (v.toNat / 0x10000), UInt8.ofNat (v.toNat / 0x1000000)]

@[simp] theorem length_le16 (v : UInt16) : (le16 v).length = 2 := rfl

@[simp] theorem length_le32 (v : UInt32) : (le32 v).length = 4 := rfl

theorem le16_value (v : UInt16) : (UInt8.ofNat v.toNat).toNat + 0x100 * (UInt8.ofNat (v.toNat / 0x100)).toNat = v.toNat := by
  have hlt := v.toNat_lt
  simp only [UInt8.toNat_ofNat']
  omega

theorem le32_value (v : UInt32) :
    (UInt8.ofNat v.toNat).toNat + 0x100 * (UInt8.ofNat (v.toNat / 0x100)).toNat +
      0x10000 * (UInt8.ofNat (v.toNat / 0x10000)).toNat + 0x1000000 * (UInt8.ofNat (v.toNat / 0x1000000)).toNat = v.toNat := by
  have hlt := v.toNat_lt
  simp only [UInt8.toNat_ofNat']
  omega

/-- Any two octets are a number. -/
theorem exists_le16 (a b : UInt8) : ∃ v : UInt16, le16 v = [a, b] := by
  have ha := a.toNat_lt
  have hb := b.toNat_lt
  refine ⟨UInt16.ofNat (a.toNat + 0x100 * b.toNat), ?_⟩
  have hv : (UInt16.ofNat (a.toNat + 0x100 * b.toNat)).toNat = a.toNat + 0x100 * b.toNat := by
    rw [UInt16.toNat_ofNat']
    omega
  unfold le16
  rw [hv, show UInt8.ofNat (a.toNat + 0x100 * b.toNat) = a from UInt8.toNat_inj.mp (by rw [UInt8.toNat_ofNat']; omega),
    show UInt8.ofNat ((a.toNat + 0x100 * b.toNat) / 0x100) = b from UInt8.toNat_inj.mp (by rw [UInt8.toNat_ofNat']; omega)]

theorem exists_le32 (a b c d : UInt8) : ∃ v : UInt32, le32 v = [a, b, c, d] := by
  have ha := a.toNat_lt
  have hb := b.toNat_lt
  have hc := c.toNat_lt
  have hd := d.toNat_lt
  let n := a.toNat + 0x100 * b.toNat + 0x10000 * c.toNat + 0x1000000 * d.toNat
  refine ⟨UInt32.ofNat n, ?_⟩
  have hv : (UInt32.ofNat n).toNat = n := by
    rw [UInt32.toNat_ofNat']
    omega
  unfold le32
  rw [hv, show UInt8.ofNat n = a from UInt8.toNat_inj.mp (by rw [UInt8.toNat_ofNat']; omega),
    show UInt8.ofNat (n / 0x100) = b from UInt8.toNat_inj.mp (by rw [UInt8.toNat_ofNat']; omega),
    show UInt8.ofNat (n / 0x10000) = c from UInt8.toNat_inj.mp (by rw [UInt8.toNat_ofNat']; omega),
    show UInt8.ofNat (n / 0x1000000) = d from UInt8.toNat_inj.mp (by rw [UInt8.toNat_ofNat']; omega)]

end WebAudit.Lib
