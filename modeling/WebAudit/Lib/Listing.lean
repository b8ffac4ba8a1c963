import Mathlib.Data.List.Basic

/-!
# Listings in which everything comes after what it depends on

`r a b` says that `a` depends on `b`. In a `Listing r l` every entry of `l` stands after all
that it depends on: so what follows for an entry from its dependencies holds of all entries
(`Listing.rule`).
-/

namespace WebAudit.Lib

variable {α : Type} {r : α → α → Prop} {l : List α} {a : α}

/-- Every entry comes after all that it depends on. -/
inductive Listing (r : α → α → Prop) : List α → Prop where
  | nil : Listing r []
  | snoc {l : List α} {a : α} (h : Listing r l) (ha : ∀ b, r a b → b ∈ l) : Listing r (l ++ [a])

namespace Listing

/-- **The rule**: what follows for an entry from its dependencies holds of all entries. -/
theorem rule {P : α → Prop} (h : Listing r l) (hstep : ∀ a ∈ l, (∀ b, r a b → b ∈ l ∧ P b) → P a) : ∀ a ∈ l, P a := by
  induction h with
  | nil => exact nofun
  | @snoc l a h ha ih =>
    have hold : ∀ b ∈ l, P b := ih fun b hb hdeps =>
      hstep b (List.mem_append_left _ hb) fun c hc => ⟨List.mem_append_left _ (hdeps c hc).1, (hdeps c hc).2⟩
    intro b hb
    rcases List.mem_append.mp hb with hb | hb
    · exact hold b hb
    · obtain rfl := List.mem_singleton.mp hb
      exact hstep b (by simp) fun c hc => ⟨List.mem_append_left _ (ha c hc), hold c (ha c hc)⟩

/-- What an entry depends on is listed. -/
theorem closed (h : Listing r l) : ∀ a ∈ l, ∀ b, r a b → b ∈ l :=
  h.rule (P := fun a => ∀ b, r a b → b ∈ l) fun _ _ hdeps b hb => (hdeps b hb).1

/-- What an entry depends on stands before it. -/
theorem before {l₁ l₂ : List α} (h : Listing r (l₁ ++ a :: l₂)) {b : α} (hb : r a b) : b ∈ l₁ := by
  generalize hl : l₁ ++ a :: l₂ = l at h
  induction h generalizing l₂ with
  | nil => simp at hl
  | snoc h ha ih =>
    rcases List.eq_nil_or_concat l₂ with rfl | ⟨l₂, c, rfl⟩
    · obtain ⟨rfl, hlast⟩ := List.append_inj' hl rfl
      obtain rfl : a = _ := List.singleton_inj.mp hlast
      exact ha b hb
    · rw [List.concat_eq_append, ← List.cons_append, ← List.append_assoc] at hl
      exact ih (List.append_inj' hl rfl).1

/-- Fewer dependencies. -/
theorem mono {s : α → α → Prop} (h : Listing r l) (hs : ∀ a ∈ l, ∀ b, s a b → r a b) : Listing s l := by
  induction h with
  | nil => exact .nil
  | snoc h ha ih =>
    refine (ih fun a ha => hs a (List.mem_append_left _ ha)).snoc fun b hb => ?_
    exact ha b (hs _ (List.mem_append_right _ (List.mem_singleton_self _)) b hb)

/-- The entries under other names. -/
theorem filterMap {β : Type} {s : β → β → Prop} {f : α → Option β} (h : Listing r l)
    (hs : ∀ a x y, f a = some x → s x y → ∃ b, r a b ∧ f b = some y) : Listing s (l.filterMap f) := by
  induction h with
  | nil => exact .nil
  | @snoc l a h ha ih =>
    rw [List.filterMap_append]
    cases hfa : f a with
    | none => simpa [hfa] using ih
    | some x =>
      rw [List.filterMap_cons_some hfa, List.filterMap_nil]
      refine ih.snoc fun y hy => ?_
      obtain ⟨b, hb, hfb⟩ := hs a x y hfa hy
      exact List.mem_filterMap.mpr ⟨b, ha b hb, hfb⟩

end Listing

end WebAudit.Lib
