import Mathlib.Logic.Basic

/-!
# Programs over a store, with transactions

A service function reads and writes a store and may throw. `Db σ ε α` is such a
program as a function of the store: it ends with a value or an error, *and* with a
store, because a write made before a throw stays made. What undoes it is
`transaction`, which restores the store it started from when its body throws.

For a program that ends with a value the rules `bind_ok`, `transaction_ok` and so on
read the run apart step by step; for one that throws, `transaction_error` says that a
transaction left the store alone. `Safe` collects the programs of which that holds as
a whole, and `within` runs a program of a component on the store that contains it.
-/

namespace WebAudit.Lib

/-- A program over a store `σ` that throws errors `ε`; its writes survive a throw. -/
structure Db (σ ε α : Type) where
  /-- The result from a store, and the store left behind. -/
  run : σ → Except ε α × σ

namespace Db

variable {σ τ ε ζ α β : Type}

instance : Monad (Db σ ε) where
  pure a := ⟨fun s => (.ok a, s)⟩
  bind m f := ⟨fun s =>
    match m.run s with
    | (.ok a, s') => (f a).run s'
    | (.error e, s') => (.error e, s')⟩

/-- The store as it is now. -/
def get : Db σ ε σ := ⟨fun s => (.ok s, s)⟩

/-- Write the store. -/
def modify (f : σ → σ) : Db σ ε Unit := ⟨fun s => (.ok (), f s)⟩

/-- Throw. -/
def throw (e : ε) : Db σ ε α := ⟨fun s => (.error e, s)⟩

/-- Run the body; when it throws, run the handler on the store the body left. -/
def tryCatch (m : Db σ ε α) (handler : ε → Db σ ε α) : Db σ ε α := ⟨fun s =>
  match m.run s with
  | (.ok a, s') => (.ok a, s')
  | (.error e, s') => (handler e).run s'⟩

/-- All or nothing: when the body throws, the store is the one it started from. -/
def transaction (m : Db σ ε α) : Db σ ε α := ⟨fun s =>
  match m.run s with
  | (.ok a, s') => (.ok a, s')
  | (.error e, _) => (.error e, s)⟩

/-- Run a program of a component, read by `view` and written back by `put`; its errors are
wrapped. -/
def within (view : σ → τ) (put : τ → σ → σ) (wrap : ζ → ε) (m : Db τ ζ α) : Db σ ε α := ⟨fun s =>
  match m.run (view s) with
  | (.ok a, t) => (.ok a, put t s)
  | (.error e, t) => (.error (wrap e), put t s)⟩

/-! ### What a run is made of -/

@[simp] theorem run_pure (a : α) (s : σ) : (pure a : Db σ ε α).run s = (.ok a, s) := rfl

@[simp] theorem run_get (s : σ) : (get : Db σ ε σ).run s = (.ok s, s) := rfl

@[simp] theorem run_modify (f : σ → σ) (s : σ) : (modify f : Db σ ε Unit).run s = (.ok (), f s) := rfl

@[simp] theorem run_throw (e : ε) (s : σ) : (throw e : Db σ ε α).run s = (.error e, s) := rfl

@[simp] theorem run_get_bind (f : σ → Db σ ε β) (s : σ) : (get >>= f).run s = (f s).run s := rfl

@[simp] theorem run_modify_bind (g : σ → σ) (f : Unit → Db σ ε β) (s : σ) :
    (modify g >>= f).run s = (f ()).run (g s) := rfl

@[simp] theorem run_throw_bind (e : ε) (f : α → Db σ ε β) (s : σ) :
    ((throw e : Db σ ε α) >>= f).run s = (.error e, s) := rfl

@[simp] theorem run_pure_bind (a : α) (f : α → Db σ ε β) (s : σ) :
    ((pure a : Db σ ε α) >>= f).run s = (f a).run s := rfl

theorem run_bind (m : Db σ ε α) (f : α → Db σ ε β) (s : σ) :
    (m >>= f).run s = match m.run s with
      | (.ok a, s') => (f a).run s'
      | (.error e, s') => (.error e, s') := rfl

/-- A sequence whose first part throws. -/
theorem run_bind_error {m : Db σ ε α} {f : α → Db σ ε β} {e : ε} {s u : σ} (h : m.run s = (.error e, u)) :
    (m >>= f).run s = (.error e, u) := by rw [run_bind, h]

/-- A sequence whose first part ends with a value. -/
theorem run_bind_ok {m : Db σ ε α} {f : α → Db σ ε β} {a : α} {s u : σ} (h : m.run s = (.ok a, u)) :
    (m >>= f).run s = (f a).run u := by rw [run_bind, h]

/-- A sequence that ends with a value: its first part did, and the rest did from there. -/
theorem bind_ok {m : Db σ ε α} {f : α → Db σ ε β} {b : β} {s s' : σ} :
    (m >>= f).run s = (.ok b, s') ↔ ∃ a u, m.run s = (.ok a, u) ∧ (f a).run u = (.ok b, s') := by
  constructor
  · intro h
    rcases hm : m.run s with ⟨e | a, u⟩
    · rw [run_bind_error hm] at h
      cases h
    · rw [run_bind_ok hm] at h
      exact ⟨a, u, rfl, h⟩
  · rintro ⟨a, u, hm, h⟩
    rw [run_bind_ok hm, h]

theorem run_transaction (m : Db σ ε α) (s : σ) :
    (transaction m).run s = match m.run s with
      | (.ok a, s') => (.ok a, s')
      | (.error e, _) => (.error e, s) := rfl

/-- A transaction that ends with a value did what its body did. -/
theorem transaction_ok {m : Db σ ε α} {a : α} {s s' : σ} :
    (transaction m).run s = (.ok a, s') ↔ m.run s = (.ok a, s') := by
  rw [run_transaction]
  rcases m.run s with ⟨e | b, u⟩ <;> simp

/-- A transaction that throws left the store alone. -/
theorem transaction_error {m : Db σ ε α} {e : ε} {s s' : σ} (h : (transaction m).run s = (.error e, s')) :
    s' = s := by
  rw [run_transaction] at h
  rcases hm : m.run s with ⟨e' | b, u⟩ <;> rw [hm] at h <;> cases h
  rfl

theorem run_tryCatch (m : Db σ ε α) (handler : ε → Db σ ε α) (s : σ) :
    (tryCatch m handler).run s = match m.run s with
      | (.ok a, s') => (.ok a, s')
      | (.error e, s') => (handler e).run s' := rfl

/-- Renaming the error changes nothing for a program that ends with a value. -/
theorem tryCatch_throw_ok {m : Db σ ε α} {f : ε → ε} {a : α} {s s' : σ} :
    (tryCatch m fun e => throw (f e)).run s = (.ok a, s') ↔ m.run s = (.ok a, s') := by
  rw [run_tryCatch]
  rcases m.run s with ⟨e | b, u⟩ <;> simp

theorem run_within (view : σ → τ) (put : τ → σ → σ) (wrap : ζ → ε) (m : Db τ ζ α) (s : σ) :
    (within view put wrap m).run s = match m.run (view s) with
      | (.ok a, t) => (.ok a, put t s)
      | (.error e, t) => (.error (wrap e), put t s) := rfl

/-- A program on a component that ends with a value. -/
theorem within_ok {view : σ → τ} {put : τ → σ → σ} {wrap : ζ → ε} {m : Db τ ζ α} {a : α} {s s' : σ} :
    (within view put wrap m).run s = (.ok a, s') ↔ ∃ t, m.run (view s) = (.ok a, t) ∧ s' = put t s := by
  rw [run_within]
  rcases m.run (view s) with ⟨e | b, t⟩ <;> simp [eq_comm, and_assoc]

/-- A program on a component that throws. -/
theorem within_error {view : σ → τ} {put : τ → σ → σ} {wrap : ζ → ε} {m : Db τ ζ α} {e : ε} {s s' : σ} :
    (within view put wrap m).run s = (.error e, s') ↔
      ∃ e' t, m.run (view s) = (.error e', t) ∧ e = wrap e' ∧ s' = put t s := by
  rw [run_within]
  rcases m.run (view s) with ⟨e' | b, t⟩ <;> simp [eq_comm, and_assoc]

/-! ### Programs that throw without a trace -/

/-- A program that, whenever it throws, leaves the store as it was. -/
def Safe (m : Db σ ε α) : Prop := ∀ s e s', m.run s = (.error e, s') → s' = s

theorem safe_throw (e : ε) : Safe (throw e : Db σ ε α) := fun _ _ _ h => by
  cases h
  rfl

theorem safe_transaction (m : Db σ ε α) : Safe (transaction m) := fun _ _ _ h => transaction_error h

/-- Reading first does not spoil it. -/
theorem Safe.get_bind {f : σ → Db σ ε β} (h : ∀ s, Safe (f s)) : Safe (get >>= f) := fun s e s' hs => h s s e s' hs

/-- Following it by a part that cannot throw does not spoil it. -/
theorem Safe.bind {m : Db σ ε α} {f : α → Db σ ε β} (h : Safe m)
    (hf : ∀ a s, ∃ b, ((f a).run s).1 = .ok b) : Safe (m >>= f) := by
  intro s e s' hs
  rcases hm : m.run s with ⟨e' | a, u⟩
  · rw [run_bind_error hm] at hs
    cases hs
    exact h s _ _ hm
  · rw [run_bind_ok hm] at hs
    obtain ⟨b, hb⟩ := hf a u
    rw [hs] at hb
    cases hb

theorem Safe.tryCatch_throw {m : Db σ ε α} (h : Safe m) (f : ε → ε) : Safe (tryCatch m fun e => throw (f e)) := by
  intro s e s' hs
  rw [run_tryCatch] at hs
  rcases hm : m.run s with ⟨e' | a, u⟩ <;> rw [hm] at hs <;> cases hs
  exact h s _ _ hm

theorem Safe.ite {c : Prop} [Decidable c] {m n : Db σ ε α} (hm : Safe m) (hn : Safe n) :
    Safe (if c then m else n) := by
  split
  · exact hm
  · exact hn

end Db

end WebAudit.Lib
