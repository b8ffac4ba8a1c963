import Mathlib.Logic.Function.Basic

/-!
# Pools of threads

A pool assigns to each of any number of workers what it is doing, if it is doing
anything. When one worker moves, what holds of every thread has to be shown for the one
that moved and kept for the others.
-/

namespace WebAudit.Lib

variable {ι τ : Type}

/-- Every thread of the pool satisfies `P`. -/
def Everyone (P : τ → Prop) (pool : ι → Option τ) : Prop := ∀ i r, pool i = some r → P r

namespace Everyone

variable {P Q : τ → Prop} {pool : ι → Option τ}

theorem idle (P : τ → Prop) : Everyone P fun _ : ι => (none : Option τ) := fun _ _ h => by cases h

/-- What each thread keeps, all of them keep. -/
theorem imp (h : Everyone P pool) (hPQ : ∀ r, P r → Q r) : Everyone Q pool := fun i r hr => hPQ r (h i r hr)

/-- One worker moves on, or stops. -/
theorem update [DecidableEq ι] (h : Everyone P pool) (i : ι) {next : Option τ} (hnext : ∀ r, next = some r → P r) :
    Everyone P (Function.update pool i next) := by
  intro j r hr
  by_cases e : j = i
  · subst e
    rw [Function.update_self] at hr
    exact hnext r hr
  · rw [Function.update_of_ne e] at hr
    exact h j r hr

end Everyone

end WebAudit.Lib
