import WebAudit.Safety.Stops

/-!
# The lease that a host goes by

`authorizeEffect` and `casHostTransition` of `services/execution-runtime` let a host of class L go on
while `fahes_lock_live_lease` finds a lease of its execution: a row that is neither released nor
reclaimed. It does not look at `expiresAt`, by which `f07_scope_has_live_execution` decides that
nothing is live in the scope of a stop.

## The model

* A caller is one such transaction. `authorizeEffect` looks for a pending stop first, a transition
  does not. What else they ask of the unit, its claim and its plan may refuse, at any time.
* Between any two statements of a caller whatever `System` has may happen. What would update a lease
  row that a caller has locked waits until the caller is over.
-/

namespace WebAudit.Safety

open WebAudit.Lib

/-! ### Callers -/

/-- The next statement of a caller, or what it has come to. -/
inductive CallerPc where
  /-- `f07_stop_pending`. -/
  | stop
  /-- `fahes_lock_live_lease`. -/
  | lease
  /-- The rows of these leases are locked, each with its grant. -/
  | commit (rows : List (ℕ × ℕ))
  | passed (rows : List (ℕ × ℕ))
  | refused
  deriving DecidableEq

structure Caller where
  executionId : String
  /-- The scopes that cover the unit. -/
  keys : List StopKey
  pc : CallerPc
  deriving DecidableEq

/-- The rows that `fahes_lock_live_lease` finds. -/
def fahes_lock_live_lease (s : State) (executionId : String) : List (ℕ × ℕ) :=
  if executionId = "" then []
  else ((leasesOf s .none).filter fun p => p.2.executionId = executionId && p.2.isOpen).map fun p => (p.1, p.2.id)

/-- The next statement of a caller. -/
def callerStep (s : State) (x : Caller) : Option CallerPc :=
  match x.pc with
  | .stop => some (if (stopPending s .none x.keys).isSome then .refused else .lease)
  | .lease =>
    let rows := fahes_lock_live_lease s x.executionId
    -- `FOR SHARE` waits for rows that are being updated
    if rows.all fun p => rowFree (s.txs.map (·.work)) p.2 then some (if rows.isEmpty then .refused else .commit rows) else none
  | .commit rows => some (.passed rows)
  | _ => none

/-! ### The machine -/

structure Fenced where
  f07 : State
  callers : List Caller
  deriving DecidableEq

inductive FencedAction where
  | f07 (a : Action)
  | authorizeEffect (executionId : String) (keys : List StopKey)
  | casHostTransition (executionId : String) (keys : List StopKey)
  | run (c : ℕ)
  /-- The caller is refused, or fails. -/
  | refuse (c : ℕ)
  deriving DecidableEq

/-- The lease rows that the caller has locked are nobody's to update. -/
def Caller.lets (f07 : State) (x : Caller) : Bool :=
  match x.pc with
  | .commit rows => rows.all fun p => rowFree (f07.txs.map (·.work)) p.2
  | _ => true

def Fenced.setPc (s : Fenced) (c : ℕ) (pc : CallerPc) : Fenced := { s with callers := s.callers.modify c fun x => { x with pc } }

def fencedNext (s : Fenced) : FencedAction → Option Fenced
  | .f07 a => do
    let f07 ← next s.f07 a
    if s.callers.all (·.lets f07) then some { s with f07 } else none
  | .authorizeEffect executionId keys => some { s with callers := s.callers ++ [⟨executionId, keys, .stop⟩] }
  | .casHostTransition executionId keys => some { s with callers := s.callers ++ [⟨executionId, keys, .lease⟩] }
  | .run c => do
    let x ← s.callers[c]?
    let pc ← callerStep s.f07 x
    some (s.setPc c pc)
  | .refuse c => do
    let x ← s.callers[c]?
    match x.pc with
    | .passed _ => none
    | _ => some (s.setPc c .refused)

def fencedStep (s : Fenced) (a : FencedAction) (s' : Fenced) : Prop := fencedNext s a = some s'

def Fenced.init : Fenced := ⟨.init, []⟩

/-- Renewals are in time, and no caller commits by a lease that has expired. -/
def unexpired (s : Fenced) : FencedAction → Bool
  | .f07 a => timely s.f07 a
  | .run c => (s.callers[c]?).all fun x =>
    match x.pc with
    | .commit rows => rows.all fun p => decide (s.f07.clock < expiryOf s.f07 .none p.2)
    | _ => true
  | _ => true

/-- The steps of the runs in which this is so. -/
def unexpiredStep : Fenced → FencedAction → Fenced → Prop := Guarded fencedStep fun s a _ => unexpired s a = true

/-! ### What a caller has locked -/

/-- The lease is open, it is of that execution, and nobody is updating its row. -/
def State.Locks (s : State) (executionId : String) (p : ℕ × ℕ) : Prop :=
  (∃ l ∈ (booksOf s .none p.1).leases, l.id = p.2 ∧ l.executionId = executionId ∧ l.isOpen = true) ∧ ∀ t ∈ s.txs, p.2 ∉ t.work.rows

/-- What a caller has locked is there. -/
def Fenced.Holds (s : Fenced) : Prop :=
  ∀ (c : ℕ) (x : Caller) rows, s.callers[c]? = some x → x.pc = .commit rows → rows ≠ [] ∧ ∀ p ∈ rows, s.f07.Locks x.executionId p

section Fenced

variable {s s' : Fenced} {a : FencedAction} {f f' : State} {e : String} {p : ℕ × ℕ}

theorem mem_lock_live_lease (h : p ∈ fahes_lock_live_lease f e) :
    ∃ l ∈ (booksOf f .none p.1).leases, l.id = p.2 ∧ l.executionId = e ∧ l.isOpen = true := by
  unfold fahes_lock_live_lease at h
  split at h
  · cases h
  · obtain ⟨q, hq, rfl⟩ := List.mem_map.mp h
    obtain ⟨hmem, hp⟩ := List.mem_filter.mp hq
    simp only [Bool.and_eq_true, decide_eq_true_eq] at hp
    exact ⟨q.2, (mem_leasesOf.mp hmem).2, rfl, hp.1, hp.2⟩

theorem lock_live_lease_ne_nil : fahes_lock_live_lease f e ≠ [] ↔
    e ≠ "" ∧ ∃ p ∈ leasesOf f .none, p.2.executionId = e ∧ p.2.isOpen = true := by
  unfold fahes_lock_live_lease
  split
  · rename_i he
    simp [he]
  · rename_i he
    rw [Ne, List.map_eq_nil_iff, List.filter_eq_nil_iff]
    simp [he]

theorem rows_of_free (h : rowFree (f.txs.map (·.work)) p.2 = true) : ∀ t ∈ f.txs, p.2 ∉ t.work.rows := by
  intro t ht hmem
  have hfree := List.all_eq_true.mp h t.work (List.mem_map_of_mem ht)
  simp [hmem] at hfree

/-- Nobody closes a lease whose row is locked. -/
theorem State.Locks.step (h : f.Locks e p) (hs : Sound f) {b : Action} (hstep : Safety.step f b f')
    (hfree : rowFree (f'.txs.map (·.work)) p.2 = true) : f'.Locks e p := by
  obtain ⟨⟨l, hl, hid, he, hopen⟩, hrows⟩ := h
  refine ⟨⟨l, ?_, hid, he, hopen⟩, rows_of_free hfree⟩
  cases step_happens hstep with
  | aside hbooks _ _ _ _ => rwa [hbooks]
  | connect | call _ _ | run _ _ _ | rollback _ | rescue _ => exact hl
  | @commit k t hk =>
    have ht := (hs.txs k t hk).work
    rw [show booksOf ((f.install t.work).setTx k .idle) .none p.1 = booksOf f t.work p.1 from committed_install ht]
    obtain ⟨account, ha, -, hfollows⟩ := booksOf_sound hs ht (committed_lt hl)
    rw [booksOf_free rfl ha] at hl
    exact hfollows.untouched hl (hid ▸ hrows t (List.mem_of_getElem? hk))

/-- Caller `c` goes on to `pc`, the others stay where they are. -/
theorem getElem?_setPc {c j : ℕ} {pc : CallerPc} {x : Caller} (h : (s.setPc c pc).callers[j]? = some x) :
    ∃ y, s.callers[j]? = some y ∧ x.executionId = y.executionId ∧ (x.pc = y.pc ∨ j = c ∧ x.pc = pc) := by
  have h : (s.callers.modify c fun x => { x with pc })[j]? = some x := h
  rw [List.getElem?_modify] at h
  obtain ⟨y, hy, rfl⟩ := Option.map_eq_some_iff.mp h
  by_cases e : c = j
  · exact ⟨y, hy, by simp [e], .inr ⟨e.symm, by simp [e]⟩⟩
  · exact ⟨y, hy, by simp [e], .inl (by simp [e])⟩

theorem Fenced.Holds.step (h : s.Holds) (hs : Sound s.f07) (hstep : fencedStep s a s') : s'.Holds := by
  have happend {y : Caller} (hy : y.pc = .stop ∨ y.pc = .lease) : Fenced.Holds { s with callers := s.callers ++ [y] } := by
    intro c x rows hc hpc
    rcases getElem?_concat_cases hc with rfl | hc
    · rcases hy with hy | hy <;> rw [hy] at hpc <;> cases hpc
    · exact h c x rows hc hpc
  cases a with
  | f07 b =>
    obtain ⟨f07, hnext, hstep⟩ := Option.bind_eq_some_iff.mp hstep
    split at hstep <;> cases hstep
    rename_i hlets
    intro c x rows hc hpc
    obtain ⟨hne, hall⟩ := h c x rows hc hpc
    refine ⟨hne, fun p hp => (hall p hp).step hs hnext ?_⟩
    have hlet := List.all_eq_true.mp hlets x (List.mem_of_getElem? hc)
    simp only [Caller.lets, hpc] at hlet
    exact List.all_eq_true.mp hlet p hp
  | authorizeEffect executionId keys =>
    cases hstep
    exact happend (.inl rfl)
  | casHostTransition executionId keys =>
    cases hstep
    exact happend (.inr rfl)
  | run c =>
    obtain ⟨y, hy, hstep⟩ := Option.bind_eq_some_iff.mp hstep
    obtain ⟨pc, hcaller, hstep⟩ := Option.bind_eq_some_iff.mp hstep
    cases hstep
    intro j x rows hj hpc
    obtain ⟨z, hz, hid, hkeep | ⟨rfl, hnew⟩⟩ := getElem?_setPc hj
    · rw [hid]
      exact h j z rows hz (hkeep ▸ hpc)
    · obtain rfl := Option.some.inj (hy.symm.trans hz)
      rw [← hnew, hpc] at hcaller
      unfold callerStep at hcaller
      split at hcaller
      · split at hcaller <;> cases hcaller
      · -- the rows have been found, and nobody is updating them
        dsimp only at hcaller
        split at hcaller
        · rename_i hfree
          split at hcaller
          · cases hcaller
          · rename_i hne
            cases hcaller
            refine ⟨fun hnil => hne (by rw [hnil]; rfl), fun p hp => ⟨?_, rows_of_free (List.all_eq_true.mp hfree p hp)⟩⟩
            rw [hid]
            exact mem_lock_live_lease hp
        · cases hcaller
      · cases hcaller
      · cases hcaller
  | refuse c =>
    obtain ⟨y, hy, hstep⟩ := Option.bind_eq_some_iff.mp hstep
    have hset : (s.setPc c .refused).Holds := by
      intro j x rows hj hpc
      obtain ⟨z, hz, hid, hkeep | ⟨-, hnew⟩⟩ := getElem?_setPc hj
      · rw [hid]
        exact h j z rows hz (hkeep ▸ hpc)
      · rw [hnew] at hpc
        cases hpc
    split at hstep <;> cases hstep
    exact hset

theorem f07_step (hstep : unexpiredStep s a s') : s'.f07 = s.f07 ∨ ∃ b, a = .f07 b ∧ timelyStep s.f07 b s'.f07 := by
  obtain ⟨hstep, hguard⟩ := hstep
  cases a with
  | f07 b =>
    obtain ⟨f07, hnext, hstep⟩ := Option.bind_eq_some_iff.mp hstep
    split at hstep <;> cases hstep
    exact .inr ⟨b, rfl, hnext, hguard⟩
  | authorizeEffect executionId keys | casHostTransition executionId keys =>
    cases hstep
    exact .inl rfl
  | run c =>
    obtain ⟨y, -, hstep⟩ := Option.bind_eq_some_iff.mp hstep
    obtain ⟨pc, -, hstep⟩ := Option.bind_eq_some_iff.mp hstep
    cases hstep
    exact .inl rfl
  | refuse c =>
    obtain ⟨y, -, hstep⟩ := Option.bind_eq_some_iff.mp hstep
    split at hstep <;> cases hstep
    exact .inl rfl

/-- Of the safety tables a run is a run in which renewals are in time. -/
theorem f07_reaches (h : Reaches unexpiredStep s s') : Reaches timelyStep s.f07 s'.f07 := by
  induction h with
  | refl => exact Reaches.refl _
  | tail _ hstep ih =>
    obtain ⟨a, hstep⟩ := hstep
    rcases f07_step hstep with hsame | ⟨b, -, hstep⟩
    · rwa [hsame]
    · exact ih.snoc hstep

theorem holds_reachable (h : Reaches unexpiredStep .init s) : s.Holds := by
  refine (h.inv (I := fun s => Reaches timelyStep .init s.f07 ∧ s.Holds) ⟨Reaches.refl _, nofun⟩
    fun u a u' hu hstep => ⟨?_, hu.2.step (timely_reachable hu.1).1.1 hstep.1⟩).2
  rcases f07_step hstep with hsame | ⟨b, -, hstep⟩
  · rw [hsame]
    exact hu.1
  · exact hu.1.snoc hstep

/-- A caller that gets through has locked the rows that it goes by. -/
theorem passed_by {c : ℕ} {y : Caller} {rows : List (ℕ × ℕ)} (hstep : fencedStep s (.run c) s') (hy : s'.callers[c]? = some y)
    (hpc : y.pc = .passed rows) : ∃ x, s.callers[c]? = some x ∧ x.executionId = y.executionId ∧ x.pc = .commit rows := by
  obtain ⟨x, hx, hstep⟩ := Option.bind_eq_some_iff.mp hstep
  obtain ⟨pc, hcaller, hstep⟩ := Option.bind_eq_some_iff.mp hstep
  cases hstep
  obtain ⟨z, hz, hid, hkeep⟩ := getElem?_setPc hy
  obtain rfl := Option.some.inj (hx.symm.trans hz)
  refine ⟨x, hx, hid.symm, ?_⟩
  have hnew : pc = .passed rows := by
    rcases hkeep with hkeep | ⟨-, hnew⟩
    · unfold callerStep at hcaller
      rw [← hkeep, hpc] at hcaller
      cases hcaller
    · rw [← hnew, hpc]
  subst hnew
  unfold callerStep at hcaller
  split at hcaller
  · split at hcaller <;> cases hcaller
  · dsimp only at hcaller
    (repeat' split at hcaller) <;> cases hcaller
  · rename_i hcommit
    cases hcaller
    exact hcommit
  · cases hcaller

end Fenced

/-! ### Behind a stop -/

/-- The scopes of the unit whose lease is `oneLease`. -/
def unitKeys : List StopKey := [.EXECUTION "unit-1", .GRANT 0, .TARGET 0, .TENANT 7, .PLATFORM]

/-- The sweep closes the lease of a stopped grant, another is taken, and a host goes by it. -/
def leasedAgain : List FencedAction :=
  [.f07 (.call 0 (.reclaim 10))] ++ List.replicate 6 (.f07 (.run 0)) ++
    [.f07 (.commit 0), .f07 (.call 0 (.admission ⟨0, 0, "unit-1", none, "key-2", true, true⟩))] ++ List.replicate 17 (.f07 (.run 0)) ++
    [.f07 (.commit 0), .authorizeEffect "unit-1" unitKeys, .run 0, .run 0]

end WebAudit.Safety
