import Mathlib.Logic.Basic

/-!
# Calls that may fail on either side

A call of something outside is answered, or it fails; and a call that fails may still have had its effect. What a caller
does with it is in each case the same: it goes on, or it gives up.
-/

namespace WebAudit.Lib

/-- What comes of a statement or a call. -/
inductive Reply where
  | answered
  /-- It had its effect, and the caller sees an error. -/
  | lost
  | unreached
  deriving DecidableEq

variable {α β : Type}

/-- Where a caller goes, and what has been done: `made`, or nothing. -/
def Reply.outcome (ended next : α) (nothing made : β) : Reply → α × β
  | .answered => (next, made)
  | .lost => (ended, made)
  | .unreached => (ended, nothing)

section Outcome

variable {ended next pc : α} {nothing made change : β} {reply : Reply}

/-- A call without an effect. -/
theorem Reply.outcome_idle (h : reply.outcome ended next nothing nothing = (pc, change)) :
    change = nothing ∧ (pc = next ∨ pc = ended) := by
  cases reply with
  | answered => cases h; exact ⟨rfl, .inl rfl⟩
  | lost => cases h; exact ⟨rfl, .inr rfl⟩
  | unreached => cases h; exact ⟨rfl, .inr rfl⟩

theorem Reply.outcome_cases (h : reply.outcome ended next nothing made = (pc, change)) :
    (change = made ∧ (pc = next ∨ pc = ended)) ∨ (change = nothing ∧ pc = ended) := by
  cases reply with
  | answered => cases h; exact .inl ⟨rfl, .inl rfl⟩
  | lost => cases h; exact .inl ⟨rfl, .inr rfl⟩
  | unreached => cases h; exact .inr ⟨rfl, rfl⟩

end Outcome

end WebAudit.Lib
