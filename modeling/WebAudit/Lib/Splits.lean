import Mathlib.Data.List.Basic

/-!
# Parts between separators

What `List.splitOn` gives: parts without the separator, made of letters of the list.
What `List.intercalate` makes of them again holds these letters and the separator.
-/

namespace WebAudit.Lib

variable {α : Type} {separator a : α} {xs part : List α}

section Split

variable [BEq α] [LawfulBEq α]

/-- The first part begins with the first letter, unless that is a separator. -/
theorem splitOn_cons_of_ne (h : a ≠ separator) (xs : List α) :
    ∃ part parts, xs.splitOn separator = part :: parts ∧ (a :: xs).splitOn separator = (a :: part) :: parts := by
  obtain ⟨part, parts, hsplit⟩ := List.exists_cons_of_ne_nil (List.splitOn_ne_nil separator xs)
  refine ⟨part, parts, hsplit, ?_⟩
  rw [List.splitOn_cons_eq_if_modifyHead, if_neg (by simpa using h), hsplit]
  rfl

theorem splitOn_cons_self (xs : List α) : (separator :: xs).splitOn separator = [] :: xs.splitOn separator := by
  rw [List.splitOn_cons_eq_if_modifyHead, if_pos (by simp)]

/-- No part holds a separator, nor a letter that was not there. -/
theorem of_mem_splitOn (h : part ∈ xs.splitOn separator) : separator ∉ part ∧ ∀ a ∈ part, a ∈ xs := by
  induction xs generalizing part with
  | nil =>
    obtain rfl : part = [] := by simpa using h
    exact ⟨List.not_mem_nil, nofun⟩
  | cons b xs ih =>
    by_cases hb : b = separator
    · subst hb
      rw [splitOn_cons_self] at h
      rcases List.mem_cons.mp h with rfl | h
      · exact ⟨List.not_mem_nil, nofun⟩
      · exact ⟨(ih h).1, fun a ha => List.mem_cons_of_mem _ ((ih h).2 a ha)⟩
    · obtain ⟨first, parts, hxs, hcons⟩ := splitOn_cons_of_ne hb xs
      rw [hcons] at h
      rw [hxs] at ih
      rcases List.mem_cons.mp h with rfl | h
      · obtain ⟨hno, hletters⟩ := ih (List.mem_cons_self ..)
        refine ⟨fun hmem => ?_, fun a ha => ?_⟩
        · rcases List.mem_cons.mp hmem with heq | hmem
          · exact hb heq.symm
          · exact hno hmem
        · rcases List.mem_cons.mp ha with rfl | ha
          · exact List.mem_cons_self ..
          · exact List.mem_cons_of_mem _ (hletters a ha)
      · obtain ⟨hno, hletters⟩ := ih (List.mem_cons_of_mem _ h)
        exact ⟨hno, fun a ha => List.mem_cons_of_mem _ (hletters a ha)⟩

end Split

theorem mem_intercalate {parts : List (List α)} (h : a ∈ [separator].intercalate parts) :
    a = separator ∨ ∃ part ∈ parts, a ∈ part := by
  induction parts with
  | nil => simp at h
  | cons part rest ih =>
    cases rest with
    | nil => exact .inr ⟨part, List.mem_cons_self .., by simpa using h⟩
    | cons next rest =>
      rw [List.intercalate_cons_cons, List.mem_append, List.mem_append, List.mem_singleton] at h
      rcases h with (h | h) | h
      · exact .inr ⟨part, List.mem_cons_self .., h⟩
      · exact .inl h
      · rcases ih h with h | ⟨other, hother, ha⟩
        · exact .inl h
        · exact .inr ⟨other, List.mem_cons_of_mem _ hother, ha⟩

end WebAudit.Lib
