import Mathlib.Data.List.Basic

/-!
# Answers that may be refusals

An `Except` is an answer or the reason why there is none. A sequence answers where each part does, and a list of calls
where each of them does.
-/

namespace WebAudit.Lib

variable {ε α β : Type}

/-- A sequence that answers. -/
theorem bind_ok_iff {x : Except ε α} {f : α → Except ε β} {b : β} : (x >>= f) = .ok b ↔ ∃ a, x = .ok a ∧ f a = .ok b := by
  cases x with
  | error e =>
    constructor
    · exact nofun
    · rintro ⟨a, h, -⟩
      exact nomatch h
  | ok a =>
    constructor
    · exact fun h => ⟨a, rfl, h⟩
    · rintro ⟨a', h, hf⟩
      cases h
      exact hf

theorem toOption_eq_some_iff {x : Except ε α} {a : α} : x.toOption = some a ↔ x = .ok a := by
  cases x with
  | error e => exact iff_of_false nofun nofun
  | ok a' => exact ⟨fun h => congrArg _ (Option.some.inj h), fun h => congrArg _ (Except.ok.inj h)⟩

theorem mapM_cons_ok_iff {f : α → Except ε β} {x : α} {xs : List α} {ys : List β} :
    (x :: xs).mapM f = .ok ys ↔ ∃ y ys', f x = .ok y ∧ xs.mapM f = .ok ys' ∧ ys = y :: ys' := by
  rw [List.mapM_cons, bind_ok_iff]
  refine exists_congr fun y => ?_
  constructor
  · rintro ⟨hy, h⟩
    obtain ⟨ys', hys, h⟩ := bind_ok_iff.mp h
    cases h
    exact ⟨ys', hy, hys, rfl⟩
  · rintro ⟨ys', hy, hys, rfl⟩
    exact ⟨hy, bind_ok_iff.mpr ⟨ys', hys, rfl⟩⟩

/-- A list of calls answers where each call does. -/
theorem mapM_answers {f : α → Except ε β} {xs : List α} : (∃ ys, xs.mapM f = .ok ys) ↔ ∀ x ∈ xs, ∃ y, f x = .ok y := by
  induction xs with
  | nil => exact iff_of_true ⟨[], rfl⟩ nofun
  | cons x xs ih =>
    rw [List.forall_mem_cons, ← ih]
    constructor
    · rintro ⟨ys, h⟩
      obtain ⟨y, ys', hy, hys, -⟩ := mapM_cons_ok_iff.mp h
      exact ⟨⟨y, hy⟩, ys', hys⟩
    · rintro ⟨⟨y, hy⟩, ys', hys⟩
      exact ⟨y :: ys', mapM_cons_ok_iff.mpr ⟨y, ys', hy, hys, rfl⟩⟩

/-- Its answers are those of its calls. -/
theorem mem_of_mapM {f : α → Except ε β} {xs : List α} {ys : List β} (h : xs.mapM f = .ok ys) (y : β) :
    y ∈ ys ↔ ∃ x ∈ xs, f x = .ok y := by
  induction xs generalizing ys with
  | nil =>
    cases h
    simp
  | cons x xs ih =>
    obtain ⟨y', ys', hy, hys, rfl⟩ := mapM_cons_ok_iff.mp h
    rw [List.mem_cons, List.exists_mem_cons_iff, ih hys, hy, Except.ok.injEq, eq_comm]

end WebAudit.Lib
