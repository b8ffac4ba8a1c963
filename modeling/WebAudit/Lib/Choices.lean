import Mathlib.Data.List.Lex

/-!
# Always taking the least that may come next

`may l a` says that `a` may come next after the list `l`. A list in `Choices may lt` has been put
together by taking each time the least entry of those that might come next. No list of such
entries that is as long comes before it in the lexicographic order (`Choices.least`), so there is
one such list at most.
-/

namespace WebAudit.Lib

variable {α : Type} {may : List α → α → Prop} {lt : α → α → Prop} {l l' : List α}

/-- Every entry might have come where it stands. -/
def Admitted (may : List α → α → Prop) (l : List α) : Prop := ∀ l₁ a l₂, l = l₁ ++ a :: l₂ → may l₁ a

/-- Every entry is the least that might have come where it stands. -/
inductive Choices (may : List α → α → Prop) (lt : α → α → Prop) : List α → Prop where
  | nil : Choices may lt []
  | snoc {l : List α} {a : α} (h : Choices may lt l) (hmay : may l a) (hleast : ∀ b, may l b → b = a ∨ lt a b) :
      Choices may lt (l ++ [a])

/-- The list has the lesser entry where the two first differ. -/
def Precedes (lt : α → α → Prop) (l l' : List α) : Prop :=
  ∃ p a s b t, l = p ++ a :: s ∧ l' = p ++ b :: t ∧ lt a b

theorem Precedes.lex (h : Precedes lt l l') : List.Lex lt l l' := by
  obtain ⟨p, a, s, b, t, rfl, rfl, hlt⟩ := h
  induction p with
  | nil => exact .rel hlt
  | cons c p ih => exact .cons ih

/-- **The list that is put together so** comes first of all that are admitted. -/
theorem Choices.least (h : Choices may lt l) (hl' : Admitted may l') (hlen : l.length ≤ l'.length) :
    l <+: l' ∨ Precedes lt l l' := by
  induction h with
  | nil => exact .inl List.nil_prefix
  | @snoc l a _ _ hleast ih =>
    rw [List.length_append, List.length_singleton] at hlen
    rcases ih (by omega) with ⟨t, rfl⟩ | ⟨p, c, s, b, t, rfl, rfl, hlt⟩
    · rcases t with _ | ⟨b, t⟩
      · rw [List.append_nil] at hlen
        omega
      · rcases hleast b (hl' l b t rfl) with rfl | hlt
        · exact .inl ⟨t, by simp⟩
        · exact .inr ⟨l, a, [], b, t, rfl, rfl, hlt⟩
    · exact .inr ⟨p, c, s ++ [a], b, t, by simp, rfl, hlt⟩

/-- Two lists that each come first are one. -/
theorem eq_of_lex [Std.Asymm lt] (h : l = l' ∨ List.Lex lt l l') (h' : l' = l ∨ List.Lex lt l' l) : l = l' := by
  rcases h with h | h
  · exact h
  rcases h' with h' | h'
  · exact h'.symm
  · exact absurd h' (asymm h)

end WebAudit.Lib
