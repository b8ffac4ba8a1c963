import Mathlib.Logic.Relation

/-!
# Runs of a labelled transition system

A system is a relation `step s a s'`: in state `s` the event `a` may lead to `s'`. A run
is any finite number of steps, `Reaches step s s'`; it is Mathlib's reflexive transitive
closure, so its induction principles apply. `Reaches.inv` is the rule for invariants.
A run all of whose steps meet a condition is a run of the system `Guarded step G`. What a run
has seen on its way, in the order in which it has seen it, is `Passed`.
-/

namespace WebAudit.Lib

variable {σ α : Type}

/-- `s'` is reached from `s` by a finite number of steps. -/
def Reaches (step : σ → α → σ → Prop) : σ → σ → Prop := Relation.ReflTransGen fun s s' => ∃ a, step s a s'

/-- The steps that meet the condition `G`, which may speak of the state before the step,
the event and the state after it. -/
def Guarded (step : σ → α → σ → Prop) (G : σ → α → σ → Prop) (s : σ) (a : α) (s' : σ) : Prop :=
  step s a s' ∧ G s a s'

namespace Reaches

variable {step step' : σ → α → σ → Prop} {s s' s'' : σ} {a : α}

theorem refl (s : σ) : Reaches step s s := Relation.ReflTransGen.refl

theorem snoc (h : Reaches step s s') (hs : step s' a s'') : Reaches step s s'' := h.tail ⟨a, hs⟩

theorem cons (hs : step s a s') (h : Reaches step s' s'') : Reaches step s s'' := h.head ⟨a, hs⟩

/-- **The invariant rule**: what holds at the start and is kept by every step holds in every
state reached. -/
theorem inv {I : σ → Prop} (h : Reaches step s s') (h₀ : I s)
    (hstep : ∀ u a u', I u → step u a u' → I u') : I s' := by
  induction h with
  | refl => exact h₀
  | tail _ hs ih =>
    obtain ⟨a, hs⟩ := hs
    exact hstep _ a _ ih hs

/-- Runs of a system are runs of one that has more steps. -/
theorem mono (h : Reaches step s s') (hsub : ∀ u a u', step u a u' → step' u a u') : Reaches step' s s' :=
  Relation.ReflTransGen.mono (fun u u' ⟨a, hs⟩ => ⟨a, hsub u a u' hs⟩) _ _ h

/-- A run of a deterministic system, all of whose steps pass a check, found by playing it. -/
theorem of_play (next : σ → α → Option σ) (check : σ → α → Bool) (as : List α)
    (h : as.foldlM (fun u a => if check u a then next u a else none) s = some s') :
    Reaches (Guarded (fun u a u' => next u a = some u') fun u a _ => check u a = true) s s' := by
  induction as generalizing s with
  | nil =>
    obtain rfl : s = s' := by simpa using h
    exact refl s
  | cons a as ih =>
    rw [List.foldlM_cons] at h
    by_cases hc : check s a
    · rw [if_pos hc] at h
      rcases hn : next s a with _ | u
      · simp [hn] at h
      · rw [hn] at h
        exact cons ⟨hn, hc⟩ (ih h)
    · simp [hc] at h

/-- The same, for a state of which it is only known that a decidable property holds. -/
theorem exists_of_play (next : σ → α → Option σ) (check : σ → α → Bool) (s : σ) (as : List α) (P : σ → Prop) [DecidablePred P]
    (h : (as.foldlM (fun u a => if check u a then next u a else none) s).any (fun u => decide (P u)) = true) :
    ∃ s', Reaches (Guarded (fun u a u' => next u a = some u') fun u a _ => check u a = true) s s' ∧ P s' := by
  obtain ⟨s', hs', hp⟩ := Option.any_eq_true _ _ |>.mp h
  exact ⟨s', of_play next check as hs', by simpa using hp⟩

/-- A guarded run is a run. -/
theorem of_guarded {G : σ → α → σ → Prop} (h : Reaches (Guarded step G) s s') : Reaches step s s' :=
  h.mono fun _ _ _ hs => hs.1

end Reaches

/-! ### What a run has seen -/

/-- A run from `s₀` has come through states with these properties, through the last one first. -/
def Passed (step : σ → α → σ → Prop) (s₀ : σ) : List (σ → Prop) → σ → Prop
  | [], s => Reaches step s₀ s
  | P :: Ps, s => ∃ u, Passed step s₀ Ps u ∧ P u ∧ Reaches step u s

namespace Passed

variable {step : σ → α → σ → Prop} {s₀ s s' : σ} {a : α} {P : σ → Prop} {Ps : List (σ → Prop)}

/-- What has been seen remains so. -/
theorem snoc (h : Passed step s₀ Ps s) (hs : step s a s') : Passed step s₀ Ps s' := by
  cases Ps with
  | nil => exact Reaches.snoc h hs
  | cons P Ps =>
    obtain ⟨u, hu, hp, hrun⟩ := h
    exact ⟨u, hu, hp, hrun.snoc hs⟩

/-- What holds now is seen now. -/
theorem see (h : Passed step s₀ Ps s) (hp : P s) : Passed step s₀ (P :: Ps) s := ⟨s, h, hp, Reaches.refl s⟩

end Passed

end WebAudit.Lib
