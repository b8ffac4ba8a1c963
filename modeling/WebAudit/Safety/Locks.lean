import WebAudit.Safety.Admission

/-!
# The locks of stops and admissions

An admission has the advisory locks of all scopes that cover its execution, shared, when it looks for
pending stops; whoever changes a stop has the lock of the stop's scope, alone. So what an admission
has seen of the stops is still so when it commits (`Behind`), and a stop that a transaction is
changing nobody admits behind (`Locked`).

`Touch` says once what a statement can do to locks, stops and leases, and `exec_touch` that it can do
nothing else.
-/

namespace WebAudit.Safety

open WebAudit.Lib

/-! ### Scopes -/

/-- The scopes that cover an admission. -/
def Admission.keys (a : Admission) : List StopKey := coveringKeys a.r.executionId a.r.scanId a.r.grantId a.r.targetId a.user

/-- The scopes that cover a lease. -/
def AdmissionLease.keys (g : ℕ) (l : AdmissionLease) : List StopKey := coveringKeys l.executionId l.scanId g l.targetId l.userId

theorem covers_iff {key : StopKey} {g : ℕ} {l : AdmissionLease} : key.covers g l = true ↔ key ∈ l.keys g := by
  rcases hscan : l.scanId with _ | id <;> cases key <;>
    simp [StopKey.covers, AdmissionLease.keys, coveringKeys, hscan, eq_comm]

theorem mem_admitLocks {a : Admission} {key : StopKey} (h : key ∈ a.keys) : (LockKey.stop key, true) ∈ admitLocks a :=
  List.mem_append_left _ (List.mem_map_of_mem (f := fun key => (LockKey.stop key, true)) h)

/-! ### Stops -/

section Stops

variable {s s' : State} {w : Work} {key : StopKey} {k : KillSwitchState}

/-- The row of a stop is the transaction's, if it has one, or else what is committed. -/
theorem stopOf_eq : stopOf s w key = (w.stops.find? (·.key = key)).or (s.stops.find? (·.key = key)) := by
  unfold stopOf stopsOf
  rw [List.find?_append]
  rcases hw : w.stops.find? (·.key = key) with _ | k
  · rw [hw, Option.none_or, Option.none_or, List.find?_filter]
    congr 1
    funext k
    by_cases hk : k.key = key
    · have hother : ∀ x ∈ w.stops, ¬ x.key = key := fun x hx => by simpa using List.find?_eq_none.mp hw x hx
      simpa [hk] using hother
    · simp [hk]
  · rw [hw, Option.some_or, Option.some_or]

theorem find_holdStop : (w.holdStop k).stops.find? (·.key = k.key) = some k := by simp [Work.holdStop]

theorem find_holdStop_ne (h : key ≠ k.key) : (w.holdStop k).stops.find? (·.key = key) = w.stops.find? (·.key = key) := by
  unfold Work.holdStop
  rw [List.find?_cons_of_neg (by simpa using Ne.symm h), List.find?_filter]
  congr 1
  funext x
  by_cases hx : x.key = key
  · simp [hx, h]
  · simp [hx]

theorem mem_of_find {x : KillSwitchState} (h : w.stops.find? (·.key = key) = some x) : x ∈ w.stops ∧ x.key = key :=
  ⟨List.mem_of_find?_eq_some h, by simpa using List.find?_some h⟩

/-- How the row of a stop may change: it is made, or goes along an edge that the database lets through. -/
def Edge (old : Option KillSwitchState) (new : KillSwitchState) : Prop :=
  match old with
  | none => new.state = .REQUESTED
  | some old => killSwitchGuard old.state new.state = true

/-- No stop of the scope is pending, as the transaction sees it. -/
def NotPending (s : State) (w : Work) (key : StopKey) : Prop := ∀ k, stopOf s w key = some k → k.isPending = false

end Stops

/-! ### What a statement does -/

/-- Leases that are open stay what they are, and none are added. -/
def SameLeases (s : State) (w w' : Work) : Prop :=
  ∀ g, ∀ l ∈ (booksOf s w' g).leases, l.isOpen = true → l ∈ (booksOf s w g).leases

/-- The stop that the statement may set to `STOPPED`. -/
def Pc.writes : Pc → Option StopKey
  | .stoppedWrite k | .reconcileWrite _ k _ => some k.key
  | _ => none

/-- What a statement can do to locks, stops and leases. -/
inductive Touch (s : State) (others : List Work) (w : Work) (pc : Pc) : Work → Prop where
  | same {w' : Work} (hlocks : w'.locks = w.locks) (hstops : w'.stops = w.stops) (hexpiries : w'.expiries = w.expiries)
      (hleases : SameLeases s w w') : Touch s others w pc w'
  | enter {a : Admission} {w' : Work} (hpc : pc = .book a) (hlocks : w'.locks = w.locks) (hstops : w'.stops = w.stops)
      (hexpiries : w'.expiries = (s.serial, a.now + leaseMs) :: w.expiries)
      (hleases : ∀ g, ∀ l ∈ (booksOf s w' g).leases, l.isOpen = true → l ∈ (booksOf s w g).leases ∨ g = a.r.grantId ∧ l = a.lease s.serial) :
      Touch s others w pc w'
  | renew {x : Renewal} {w' : Work} (hpc : pc = .renewUpdate x) (hlocks : w'.locks = w.locks) (hstops : w'.stops = w.stops)
      (hexpiries : w'.expiries = (x.lease.id, x.now + leaseMs) :: w.expiries) (hheld : w'.held = w.held)
      (hlive : (booksOf s w x.grantId).leases.any (fun l =>
        l.id = x.lease.id && l.holderToken = x.lease.holderToken && isLive s w x.now l) = true) : Touch s others w pc w'
  | lock {key : LockKey} {shared : Bool} (hfree : lockFree others key shared = true) : Touch s others w pc (w.lock key shared)
  /-- The row of a stop is locked. -/
  | hold {k : KillSwitchState} (hfree : stopFree others k.key = true) (hk : stopOf s w k.key = some k) : Touch s others w pc (w.holdStop k)
  /-- A stop is changed. -/
  | write {k : KillSwitchState} (hlock : (LockKey.stop k.key, false) ∈ w.locks) (hfree : stopFree others k.key = true)
      (hedge : Edge (stopOf s w k.key) k) (hstopped : k.state = .STOPPED → pc.writes = some k.key) : Touch s others w pc (w.holdStop k)

/-- The row of the stop is locked, and this is it. -/
def Work.Holds (w : Work) (k : KillSwitchState) : Prop := w.stops.find? (·.key = k.key) = some k

/-- What has been locked and seen when a call is at a statement. -/
def Pc.Locked (s : State) (w : Work) : Pc → Prop
  | .lock a left => ∀ p ∈ admitLocks a, p ∈ left ∨ p ∈ w.locks
  | .pending a => ∀ p ∈ admitLocks a, p ∈ w.locks
  | .environment a | .counter a | .replay a | .leased a | .book a => (∀ p ∈ admitLocks a, p ∈ w.locks) ∧ ∀ key ∈ a.keys, NotPending s w key
  | .triggerSelect key | .ackSelect key | .stoppedSelect key => (LockKey.stop key, false) ∈ w.locks
  | .stoppedLive k | .stoppedWrite k | .reconcileLive _ k _ | .reconcileWrite _ k _ => (LockKey.stop k.key, false) ∈ w.locks ∧ w.Holds k
  | .reconcileTry _ k _ => w.Holds k
  | _ => True

section Statements

variable {s : State} {others : List Work} {w w' : Work} {pc pc' : Pc}

/-- What a statement does, and what is known afterwards. -/
def Touches (s : State) (others : List Work) (w : Work) (pc : Pc) (w' : Work) (pc' : Pc) : Prop :=
  Touch s others w pc w' ∧ pc'.Locked s w'

theorem Touches.nothing (h : pc'.Locked s w) : Touches s others w pc w pc' := ⟨.same rfl rfl rfl fun _ _ hl _ => hl, h⟩

/-- Books whose leases are the same are held. -/
theorem sameLeases_hold {g : ℕ} {b : Books} (hb : ∀ l ∈ b.leases, l.isOpen = true → l ∈ (booksOf s w g).leases)
    (hheld : w'.held = (w.hold g b).held) : SameLeases s w w' := by
  intro g' l hl hopen
  unfold booksOf at hl
  rw [hheld] at hl
  by_cases e : g' = g
  · subst e
    rw [lookup_hold] at hl
    exact hb l hl hopen
  · rw [lookup_hold_ne e] at hl
    exact hl

theorem stopOf_same {key : StopKey} (hstops : w'.stops = w.stops) : stopOf s w' key = stopOf s w key := by
  rw [stopOf_eq, stopOf_eq, hstops]

theorem admit_touch (hpc : pc.Locked s w) (h : admitStep s others w pc = some (w', pc')) : Touches s others w pc w' pc' := by
  unfold admitStep at h
  split at h
  · split at h <;> cases h <;> exact .nothing trivial
  · split at h <;> cases h <;> exact .nothing trivial
  · split at h <;> cases h <;> exact .nothing trivial
  · split at h <;> cases h
    · exact .nothing trivial
    · exact .nothing fun p hp => .inl hp
  · cases h
    exact .nothing fun p hp => (hpc p hp).resolve_left List.not_mem_nil
  · split at h <;> cases h
    rename_i hfree
    refine ⟨.lock hfree, fun p hp => ?_⟩
    rcases hpc p hp with hp | hp
    · rcases List.mem_cons.mp hp with rfl | hp
      · exact .inr (List.mem_cons_self ..)
      · exact .inl hp
    · exact .inr (List.mem_cons_of_mem _ hp)
  · rename_i a
    split at h
    · cases h
      exact .nothing trivial
    · rename_i hnone
      split at h
      · cases h
        exact .nothing trivial
      · split at h <;> cases h
        · exact .nothing trivial
        · refine .nothing ⟨hpc, fun key hkey k hk => ?_⟩
          have hfree := List.find?_eq_none.mp hnone key hkey
          simpa [hk] using hfree
  · split at h
    · split at h <;> cases h
      · exact .nothing hpc
      · exact .nothing trivial
    · cases h
      exact .nothing trivial
  · rename_i a
    split at h <;> cases h
    exact ⟨.same rfl rfl rfl (sameLeases_hold (b := (booksOf s w a.r.grantId).withCounter) (fun l hl _ => hl) rfl), hpc⟩
  · dsimp only at h
    split at h
    · cases h
      exact .nothing trivial
    · split at h <;> cases h
      · exact .nothing trivial
      · exact .nothing hpc
  · split at h <;> cases h
    · exact .nothing trivial
    · exact .nothing hpc
  · rename_i a
    dsimp only at h
    split at h
    · cases h
      exact .nothing trivial
    split at h
    · cases h
      exact .nothing trivial
    split at h <;> cases h
    · rename_i hn
      refine ⟨.enter rfl rfl rfl rfl fun g l hl _ => ?_, trivial⟩
      change l ∈ (booksOf s (w.hold a.r.grantId (a.enter s.serial (booksOf s w a.r.grantId))) g).leases at hl
      by_cases e : g = a.r.grantId
      · subst e
        rw [booksOf_held lookup_hold] at hl
        simp only [Admission.enter, hn, if_true, List.mem_append, List.mem_singleton] at hl
        exact hl.imp_right fun hl => ⟨rfl, hl⟩
      · refine .inl ?_
        unfold booksOf at hl ⊢
        rw [lookup_hold_ne e] at hl
        exact hl
    · rename_i hn
      refine ⟨.same rfl rfl rfl (sameLeases_hold (g := a.r.grantId) (b := a.enter s.serial (booksOf s w a.r.grantId)) (fun l hl _ => ?_) rfl), trivial⟩
      simpa [Admission.enter, hn] using hl
  · cases h

theorem renew_touch (h : renewStep s others w pc = some (w', pc')) : Touches s others w pc w' pc' := by
  unfold renewStep at h
  split at h
  · split at h
    · cases h
      exact .nothing trivial
    · split at h <;> cases h <;> exact .nothing trivial
  · split at h <;> cases h <;> exact .nothing trivial
  · split at h
    · cases h
      exact .nothing trivial
    · split at h
      · cases h
        exact .nothing trivial
      · split at h <;> cases h <;> exact .nothing trivial
  · split at h
    · split at h
      · rename_i hlive
        cases h
        exact ⟨.renew rfl rfl rfl rfl rfl hlive, trivial⟩
      · cases h
        exact .nothing trivial
    · cases h
  · cases h

/-- Open leases that a close leaves are as they were. -/
theorem sameLeases_close {g : ℕ} {p : AdmissionLease → Bool} {stamp : AdmissionLease → AdmissionLease} {f : ℤ → ℤ} (hstamp : Stamps stamp) :
    SameLeases s w (w.close g (booksOf s w g) p stamp f) := by
  refine sameLeases_hold (b := ((booksOf s w g).close p stamp).setActive f) (fun l hl hopen => ?_) rfl
  obtain ⟨l', hl', rfl⟩ := List.mem_map.mp (show l ∈ ((booksOf s w g).close p stamp).leases from hl)
  split at hopen
  · rw [hstamp.closed] at hopen
    cases hopen
  · rename_i hp
    rw [if_neg hp]
    exact hl'

theorem touches_close {g : ℕ} {p : AdmissionLease → Bool} {stamp : AdmissionLease → AdmissionLease} {f : ℤ → ℤ} (hstamp : Stamps stamp)
    (hpc' : pc'.Locked s (w.close g (booksOf s w g) p stamp f)) : Touches s others w pc (w.close g (booksOf s w g) p stamp f) pc' :=
  ⟨.same rfl rfl rfl (sameLeases_close hstamp), hpc'⟩

theorem touches_hold {g : ℕ} (hpc' : pc'.Locked s (w.hold g (booksOf s w g))) : Touches s others w pc (w.hold g (booksOf s w g)) pc' :=
  ⟨.same rfl rfl rfl (sameLeases_hold (fun _ hl _ => hl) rfl), hpc'⟩

theorem release_touch (h : releaseStep s others w pc = some (w', pc')) : Touches s others w pc w' pc' := by
  unfold releaseStep at h
  split at h
  · split at h
    · cases h
      exact .nothing trivial
    · split at h <;> cases h <;> exact .nothing trivial
  · split at h <;> cases h
    exact touches_hold trivial
  · dsimp only at h
    split at h
    · split at h <;> cases h
      · exact .nothing trivial
      · exact touches_close (stamps_release _) trivial
    · cases h
  · cases h
    exact .nothing trivial
  · cases h
    exact .nothing trivial
  · split at h <;> cases h
    exact touches_hold trivial
  · dsimp only at h
    split at h
    · split at h <;> cases h
      · exact .nothing trivial
      · exact touches_close (stamps_release _) trivial
    · cases h
  · cases h

theorem reclaim_touch (h : reclaimStep s others w pc = some (w', pc')) : Touches s others w pc w' pc' := by
  unfold reclaimStep at h
  split at h
  · cases h
    exact .nothing trivial
  · cases h
    exact .nothing trivial
  · split at h <;> cases h
    · exact touches_hold trivial
    · exact .nothing trivial
  · dsimp only at h
    split at h <;> cases h
    exact touches_close (stamps_reclaim _) trivial
  · cases h
    exact .nothing trivial
  · cases h
    exact .nothing trivial
  · split at h <;> cases h
    · exact touches_hold trivial
    · exact .nothing trivial
  · dsimp only at h
    split at h <;> cases h
    · rename_i x g grants _
      exact ⟨.same rfl rfl rfl (sameLeases_hold (b := (booksOf s w g).setActive fun _ => (booksOf s w g).openCount)
        (fun l hl _ => hl) rfl), trivial⟩
    · exact .nothing trivial
  · cases h

/-- A stop that is held, and whose scope is locked, is written. -/
theorem write_touch {k : KillSwitchState} {state : StopLifecycleState} {next : Pc} (r : ℤ) (hlock : (LockKey.stop k.key, false) ∈ w.locks)
    (hfree : stopFree others k.key = true) (hk : stopOf s w k.key = some k)
    (h : writeStop w { k with requestedAt := r } state next = some (w', pc')) (hn : ∀ w, next.Locked s w)
    (hstopped : state = .STOPPED → pc.writes = some k.key) : Touches s others w pc w' pc' := by
  unfold writeStop at h
  split at h <;> cases h
  · rename_i hguard
    refine ⟨.write (k := { k with requestedAt := r, state := state }) hlock hfree ?_ hstopped, hn _⟩
    rw [hk]
    exact hguard
  · exact .nothing trivial

/-- The row of a stop is selected. -/
theorem select_touch {key : StopKey} {f : Option KillSwitchState → Option (Work × Pc)} (h : selectStop s others w key f = some (w', pc'))
    (hf : stopFree others key = true → (stopOf s w key = none → f none = some (w', pc') → Touches s others w pc w' pc') ∧
      ∀ k, k.key = key → stopOf s w key = some k → f (some k) = some (w', pc') → Touches s others w pc w' pc') :
    Touches s others w pc w' pc' := by
  unfold selectStop at h
  split at h
  · rename_i hfree
    rcases hk : stopOf s w key with _ | k
    · exact (hf hfree).1 hk (hk ▸ h)
    · have hkey : k.key = key := by
        rw [stopOf] at hk
        simpa using List.find?_some hk
      exact (hf hfree).2 k hkey hk (hk ▸ h)
  · cases h

theorem touches_holdStop {k : KillSwitchState} (hfree : stopFree others k.key = true) (hk : stopOf s w k.key = some k)
    (hpc' : pc'.Locked s (w.holdStop k)) : Touches s others w pc (w.holdStop k) pc' := ⟨.hold hfree hk, hpc'⟩

theorem stopOf_holds {k : KillSwitchState} (h : w.Holds k) : stopOf s w k.key = some k := by
  rw [stopOf_eq, h]
  rfl

theorem stop_touch (hpc : pc.Locked s w) (hfree : ∀ k, w.Holds k → stopFree others k.key = true)
    (h : stopStep s others w pc = some (w', pc')) : Touches s others w pc w' pc' := by
  unfold stopStep at h
  split at h
  · cases h
    refine .nothing ?_
    split <;> exact trivial
  · split at h <;> cases h
    rename_i hlock
    exact ⟨.lock hlock, List.mem_cons_self ..⟩
  · rename_i key
    refine select_touch h fun hfree => ⟨fun hnone hk => ?_, fun k hkey hsome hk => ?_⟩
    · cases hk
      refine ⟨.write (k := ⟨key, .REQUESTED, s.clock⟩) hpc hfree ?_ nofun, trivial⟩
      dsimp only
      rw [hnone]
      rfl
    · subst hkey
      dsimp only at hk
      split at hk
      · exact write_touch s.clock hpc hfree hsome hk (fun _ => trivial) nofun
      · cases hk
        exact touches_holdStop hfree hsome trivial
  · split at h <;> cases h
    rename_i hlock
    exact ⟨.lock hlock, List.mem_cons_self ..⟩
  · refine select_touch h fun hfree => ⟨fun hnone hk => ?_, fun k hkey hsome hk => ?_⟩
    · cases hk
      exact .nothing trivial
    · subst hkey
      dsimp only at hk
      split at hk
      · exact write_touch k.requestedAt hpc hfree hsome hk (fun _ => trivial) nofun
      · cases hk
        exact touches_holdStop hfree hsome trivial
  · split at h <;> cases h
    rename_i hlock
    exact ⟨.lock hlock, List.mem_cons_self ..⟩
  · refine select_touch h fun hfree => ⟨fun hnone hk => ?_, fun k hkey hsome hk => ?_⟩
    · cases hk
      exact .nothing trivial
    · subst hkey
      dsimp only at hk
      split at hk <;> cases hk
      · exact touches_holdStop hfree hsome ⟨hpc, find_holdStop⟩
      · exact touches_holdStop hfree hsome trivial
  · cases h
    refine .nothing ?_
    split
    · exact trivial
    · exact hpc
  · rename_i k
    exact write_touch k.requestedAt hpc.1 (hfree k hpc.2) (stopOf_holds hpc.2) h (fun _ => trivial) fun _ => rfl
  · cases h
    exact .nothing trivial
  · cases h
    exact .nothing trivial
  · rename_i x key keys
    split at h
    · cases h
      exact .nothing trivial
    · split at h
      · rename_i k hk
        cases h
        obtain ⟨hsome, hp⟩ := Option.filter_eq_some_iff.mp hk
        have hkey : k.key = key := by
          rw [stopOf] at hsome
          simpa using List.find?_some hsome
        subst hkey
        exact touches_holdStop (Bool.and_eq_true_iff.mp hp).1 hsome find_holdStop
      · cases h
        exact .nothing trivial
  · split at h <;> cases h
    · rename_i hlock
      exact ⟨.lock hlock, List.mem_cons_self .., hpc⟩
    · exact .nothing trivial
  · cases h
    refine .nothing ?_
    split
    · exact trivial
    · exact hpc
  · rename_i x k keys
    split at h
    · split at h
      · exact write_touch k.requestedAt hpc.1 (hfree k hpc.2) (stopOf_holds hpc.2) h (fun _ => trivial) fun _ => rfl
      · cases h
        exact .nothing trivial
    · exact write_touch k.requestedAt hpc.1 (hfree k hpc.2) (stopOf_holds hpc.2) h (fun _ => trivial) fun _ => rfl
  · cases h

/-- **What a statement can do** to locks, stops and leases. -/
theorem exec_touch (hpc : pc.Locked s w) (hfree : ∀ k, w.Holds k → stopFree others k.key = true)
    (h : exec s others w pc = some (w', pc')) : Touches s others w pc w' pc' := by
  unfold exec at h
  rcases Option.or_eq_some_iff.mp h with h | ⟨-, h⟩
  · exact admit_touch hpc h
  rcases Option.or_eq_some_iff.mp h with h | ⟨-, h⟩
  · exact renew_touch h
  rcases Option.or_eq_some_iff.mp h with h | ⟨-, h⟩
  · exact release_touch h
  rcases Option.or_eq_some_iff.mp h with h | ⟨-, h⟩
  · exact reclaim_touch h
  · exact stop_touch hpc hfree h

end Statements

/-! ### What an action does -/

/-- An action leaves books, stops and transactions as they are, or is one transaction's. -/
inductive Happens (s : State) : Action → State → Prop where
  | aside {a : Action} {s' : State} (hbooks : ∀ w g, booksOf s' w g = booksOf s w g) (hstops : s'.stops = s.stops)
      (hexpiry : s'.expiry = s.expiry) (htxs : s'.txs = s.txs) (hclock : s.clock ≤ s'.clock) : Happens s a s'
  | connect : Happens s .connect { s with txs := s.txs ++ [.idle] }
  | call {k : ℕ} {t : Tx} (c : Call) (hk : s.txs[k]? = some t) : Happens s (.call k c) (s.setTx k ⟨t.work, t.work, some (c.start s.clock)⟩)
  | run {k : ℕ} {t : Tx} {pc pc' : Pc} {w : Work} (hk : s.txs[k]? = some t) (hpc : t.call = some pc)
      (h : exec s (s.others k) t.work pc = some (w, pc')) :
      Happens s (.run k) ({ s with serial := s.serial + 2 }.setTx k ⟨w, t.saved, some pc'⟩)
  | commit {k : ℕ} {t : Tx} (hk : s.txs[k]? = some t) : Happens s (.commit k) ((s.install t.work).setTx k .idle)
  | rollback {k : ℕ} {t : Tx} (hk : s.txs[k]? = some t) : Happens s (.rollback k) (s.setTx k .idle)
  | rescue {k : ℕ} {t : Tx} (hk : s.txs[k]? = some t) : Happens s (.rescue k) (s.setTx k ⟨t.saved, t.saved, none⟩)

theorem step_happens {s s' : State} {a : Action} (h : step s a s') : Happens s a s' := by
  cases a with
  | tick ms =>
    cases h
    exact .aside (fun _ _ => rfl) rfl rfl rfl (by simp)
  | setOperators operators | createTarget userId classification | classify targetId classification | createScan userId targetId =>
    cases h
    exact .aside (fun _ _ => rfl) rfl rfl rfl le_rfl
  | authorize grant =>
    simp only [Safety.step, next] at h
    split at h <;> cases h
    refine .aside (fun w g => ?_) rfl rfl rfl le_rfl
    unfold booksOf
    rcases w.held.lookup g with _ | b
    · dsimp only
      rcases Nat.lt_trichotomy g s.accounts.length with hg | rfl | hg
      · rw [List.getElem?_append_left hg]
      · simp
      · rw [List.getElem?_eq_none (by simpa using Nat.succ_le_of_lt hg), List.getElem?_eq_none hg.le]
    · rfl
  | revoke g' =>
    cases h
    refine .aside (fun w g => ?_) rfl rfl rfl le_rfl
    unfold booksOf
    dsimp only
    rw [List.getElem?_modify]
    rcases s.accounts[g]? with _ | account
    · rfl
    · by_cases e : g' = g <;> simp [e]
  | connect =>
    cases h
    exact .connect
  | call k c =>
    obtain ⟨t, hk, h⟩ := Option.bind_eq_some_iff.mp h
    split at h <;> cases h
    exact .call c hk
  | run k =>
    obtain ⟨t, hk, h⟩ := Option.bind_eq_some_iff.mp h
    obtain ⟨pc, hpc, h⟩ := Option.bind_eq_some_iff.mp h
    obtain ⟨⟨w, pc'⟩, he, h⟩ := Option.bind_eq_some_iff.mp h
    cases h
    exact .run hk hpc he
  | commit k =>
    obtain ⟨t, hk, h⟩ := Option.bind_eq_some_iff.mp h
    split at h <;> cases h
    exact .commit hk
  | rollback k =>
    obtain ⟨t, hk, h⟩ := Option.bind_eq_some_iff.mp h
    cases h
    exact .rollback hk
  | rescue k =>
    obtain ⟨t, hk, h⟩ := Option.bind_eq_some_iff.mp h
    cases h
    exact .rescue hk

/-! ### The locks -/

/-- The committed row of a stop. -/
def State.stop (s : State) (key : StopKey) : Option KillSwitchState := s.stops.find? (·.key = key)

/-- The transaction has the row of the stop. -/
def Work.HasStop (w : Work) (key : StopKey) : Prop := ∃ x, w.stops.find? (·.key = key) = some x

/-- Who has changed a stop has the lock of its scope. -/
def Work.Rows (s : State) (w : Work) : Prop :=
  ∀ key x, w.stops.find? (·.key = key) = some x → s.stop key = some x ∨ (LockKey.stop key, false) ∈ w.locks

/-- The locks are kept, and what has been seen under them is still so. -/
structure Locked (s : State) : Prop where
  call : ∀ (k : ℕ) (t : Tx) pc, s.txs[k]? = some t → t.call = some pc → pc.Locked s t.work
  savedLocks : ∀ (k : ℕ) (t : Tx) p, s.txs[k]? = some t → p ∈ t.saved.locks → p ∈ t.work.locks
  savedStops : ∀ (k : ℕ) (t : Tx) key, s.txs[k]? = some t → t.saved.HasStop key → t.work.HasStop key
  excluded : ∀ (j k : ℕ) (t u : Tx) key p, j ≠ k → s.txs[j]? = some t → s.txs[k]? = some u → (key, false) ∈ t.work.locks →
    p ∈ u.work.locks → p.1 ≠ key
  alone : ∀ (j k : ℕ) (t u : Tx) key, s.txs[j]? = some t → s.txs[k]? = some u → t.work.HasStop key → u.work.HasStop key → j = k
  rows : ∀ (k : ℕ) (t : Tx), s.txs[k]? = some t → t.work.Rows s ∧ t.saved.Rows s

section Locks

variable {s s' : State} {k : ℕ} {t t' : Tx} {w w' : Work} {key : StopKey}

theorem lockFree_of {others : List Work} {lk : LockKey} {shared : Bool} (h : lockFree others lk shared = true) {u : Work} (hu : u ∈ others)
    {p : LockKey × Bool} (hp : p ∈ u.locks) : p.1 ≠ lk ∨ p.2 = true ∧ shared = true := by
  have hall := List.all_eq_true.mp (List.all_eq_true.mp h u hu) p hp
  simpa using hall

theorem stopFree_of {others : List Work} (h : stopFree others key = true) {u : Work} (hu : u ∈ others) : ¬ u.HasStop key := by
  rintro ⟨x, hx⟩
  obtain ⟨hmem, hkey⟩ := mem_of_find hx
  have hall := List.all_eq_true.mp (List.all_eq_true.mp h u hu) x hmem
  simp [hkey] at hall

theorem hasStop_of_mem {x : KillSwitchState} (h : x ∈ w.stops) : w.HasStop x.key := by
  have hsome : (w.stops.find? (·.key = x.key)).isSome = true := List.find?_isSome.mpr ⟨x, h, by simp⟩
  exact Option.isSome_iff_exists.mp hsome

/-- What the transaction has, nobody else has. -/
theorem Locked.free (h : Locked s) (hk : s.txs[k]? = some t) (hs : t.work.HasStop key) : stopFree (s.others k) key = true := by
  refine List.all_eq_true.mpr fun u hu => List.all_eq_true.mpr fun x hx => ?_
  obtain ⟨u, hmem, rfl⟩ := List.mem_map.mp hu
  obtain ⟨j, hne, hj⟩ := List.mem_eraseIdx_iff_getElem?.mp hmem
  simp only [ne_eq, decide_eq_true_eq]
  rintro rfl
  exact hne (h.alone j k u t x.key hj hk (hasStop_of_mem hx) hs)

theorem hasStop_holdStop {x : KillSwitchState} : (w.holdStop x).HasStop key ↔ key = x.key ∨ w.HasStop key := by
  by_cases e : key = x.key
  · subst e
    exact ⟨fun _ => .inl rfl, fun _ => ⟨x, find_holdStop⟩⟩
  · rw [Work.HasStop, find_holdStop_ne e]
    exact ⟨.inr, fun h => h.resolve_left e⟩

/-- One transaction goes on, with locks and rows that nobody else has. -/
theorem Locked.setTx (h : Locked s) (hk : s.txs[k]? = some t) (hcall : ∀ pc, t'.call = some pc → pc.Locked s t'.work)
    (hsaved : ∀ p ∈ t'.saved.locks, p ∈ t'.work.locks) (hsavedStops : ∀ key, t'.saved.HasStop key → t'.work.HasStop key)
    (hlocks : ∀ p ∈ t'.work.locks, p ∈ t.work.locks ∨ lockFree (s.others k) p.1 p.2 = true)
    (hstops : ∀ key, t'.work.HasStop key → t.work.HasStop key ∨ stopFree (s.others k) key = true)
    (hrows : t'.work.Rows s ∧ t'.saved.Rows s) : Locked (s.setTx k t') := by
  have hset := fun (j : ℕ) (u : Tx) (hj : (s.txs.set k t')[j]? = some u) => getElem?_set_cases hk hj
  refine ⟨fun j u pc hj hpc => ?_, fun j u p hj => ?_, fun j u key hj => ?_, fun i j u v key p hne hi hj hu hp => ?_,
    fun i j u v key hi hj hu hv => ?_, fun j u hj => ?_⟩
  · rcases hset j u hj with ⟨-, rfl⟩ | ⟨-, hj⟩
    · exact hcall pc hpc
    · exact h.call j u pc hj hpc
  · rcases hset j u hj with ⟨-, rfl⟩ | ⟨-, hj⟩
    · exact hsaved p
    · exact h.savedLocks j u p hj
  · rcases hset j u hj with ⟨-, rfl⟩ | ⟨-, hj⟩
    · exact hsavedStops key
    · exact h.savedStops j u key hj
  · rcases hset i u hi with ⟨hik, hit⟩ | ⟨hni, hi'⟩ <;> rcases hset j v hj with ⟨hjk, hjt⟩ | ⟨hnj, hj'⟩
    · exact absurd (hik.trans hjk.symm) hne
    · rcases hlocks _ (hit ▸ hu) with hu | hfree
      · exact h.excluded k j t v key p (hik ▸ hne) hk hj' hu hp
      · exact (lockFree_of hfree (mem_others hnj hj') hp).resolve_right fun hsh => nomatch hsh.2
    · rcases hlocks _ (hjt ▸ hp) with hp | hfree
      · exact h.excluded i k u t key p (hjk ▸ hne) hi' hk hu hp
      · intro e
        rcases lockFree_of hfree (mem_others hni hi') hu with hkey | hsh
        · exact hkey e.symm
        · cases hsh.1
    · exact h.excluded i j u v key p hne hi' hj' hu hp
  · have hmine : ∀ j v, j ≠ k → s.txs[j]? = some v → v.work.HasStop key → ¬ t'.work.HasStop key := by
      intro j v hne hj hv ht
      rcases hstops key ht with ht | hfree
      · exact hne (h.alone j k v t key hj hk hv ht)
      · exact stopFree_of hfree (mem_others hne hj) hv
    rcases hset i u hi with ⟨hik, hit⟩ | ⟨hni, hi⟩ <;> rcases hset j v hj with ⟨hjk, hjt⟩ | ⟨hnj, hj⟩
    · exact hik.trans hjk.symm
    · exact absurd (hit ▸ hu) (hmine j v hnj hj hv)
    · exact absurd (hjt ▸ hv) (hmine i u hni hi hu)
    · exact h.alone i j u v key hi hj hu hv
  · rcases hset j u hj with ⟨-, rfl⟩ | ⟨-, hj⟩
    · exact hrows
    · exact h.rows j u hj

theorem stopOf_stop : stopOf s w key = (w.stops.find? (·.key = key)).or (s.stop key) := stopOf_eq

/-- What has been seen of the stops is seen under locks. -/
theorem Pc.Locked.of {pc : Pc} (hp : pc.Locked s w)
    (hs : ∀ key, (∃ shared, (LockKey.stop key, shared) ∈ w.locks) → stopOf s' w key = stopOf s w key) : pc.Locked s' w := by
  have hkeys {a : Admission} (h : (∀ p ∈ admitLocks a, p ∈ w.locks) ∧ ∀ key ∈ a.keys, NotPending s w key) :
      (∀ p ∈ admitLocks a, p ∈ w.locks) ∧ ∀ key ∈ a.keys, NotPending s' w key :=
    ⟨h.1, fun key hkey k hk => h.2 key hkey k (hs key ⟨true, h.1 _ (mem_admitLocks hkey)⟩ ▸ hk)⟩
  cases pc with
  | environment a | counter a | replay a | leased a | book a => exact hkeys hp
  | _ => exact hp

theorem start_locked (c : Call) (now : ℤ) : (c.start now).Locked s w := by
  cases c <;> simp only [Call.start] <;> (try split) <;> exact trivial

theorem Work.Rows.none : Work.none.Rows s := fun _ _ hx => nomatch hx

theorem Work.Rows.congr (h : w.Rows s) (hs : ∀ key, w.HasStop key → s'.stop key = s.stop key) : w.Rows s' :=
  fun key x hx => (hs key ⟨x, hx⟩).symm ▸ h key x hx

theorem Touch.locked {others : List Work} {pc : Pc} (h : Touch s others w pc w') :
    (∀ p ∈ w.locks, p ∈ w'.locks) ∧ (∀ p ∈ w'.locks, p ∈ w.locks ∨ lockFree others p.1 p.2 = true) ∧
      (∀ key, w.HasStop key → w'.HasStop key) ∧ (∀ key, w'.HasStop key → w.HasStop key ∨ stopFree others key = true) ∧
      (w.Rows s → w'.Rows s) := by
  have hsame (hlocks : w'.locks = w.locks) (hstops : w'.stops = w.stops) :
      (∀ p ∈ w.locks, p ∈ w'.locks) ∧ (∀ p ∈ w'.locks, p ∈ w.locks ∨ lockFree others p.1 p.2 = true) ∧
      (∀ key, w.HasStop key → w'.HasStop key) ∧ (∀ key, w'.HasStop key → w.HasStop key ∨ stopFree others key = true) ∧
      (w.Rows s → w'.Rows s) := by
    simp only [Work.HasStop, Work.Rows, hlocks, hstops]
    exact ⟨fun _ hp => hp, fun _ hp => .inl hp, fun _ hx => hx, fun _ hx => .inl hx, fun hr => hr⟩
  have hhold {x : KillSwitchState} (hfree : stopFree others x.key = true)
      (hx : w.Rows s → s.stop x.key = some x ∨ (LockKey.stop x.key, false) ∈ w.locks) :
      (∀ p ∈ w.locks, p ∈ (w.holdStop x).locks) ∧ (∀ p ∈ (w.holdStop x).locks, p ∈ w.locks ∨ lockFree others p.1 p.2 = true) ∧
      (∀ key, w.HasStop key → (w.holdStop x).HasStop key) ∧
      (∀ key, (w.holdStop x).HasStop key → w.HasStop key ∨ stopFree others key = true) ∧ (w.Rows s → (w.holdStop x).Rows s) := by
    refine ⟨fun _ hp => hp, fun _ hp => .inl hp, fun key hkey => hasStop_holdStop.mpr (.inr hkey), fun key hkey => ?_, fun hr key y hy => ?_⟩
    · rcases hasStop_holdStop.mp hkey with rfl | hkey
      · exact .inr hfree
      · exact .inl hkey
    · by_cases e : key = x.key
      · subst e
        rw [find_holdStop] at hy
        cases hy
        exact hx hr
      · rw [find_holdStop_ne e] at hy
        exact hr key y hy
  cases h with
  | same hlocks hstops _ _ => exact hsame hlocks hstops
  | enter _ hlocks hstops _ _ => exact hsame hlocks hstops
  | renew _ hlocks hstops _ _ _ => exact hsame hlocks hstops
  | @lock key shared hfree =>
    refine ⟨fun _ hp => List.mem_cons_of_mem _ hp, fun p hp => ?_, fun _ hx => hx, fun _ hx => .inl hx, fun hr key x hx => ?_⟩
    · rcases List.mem_cons.mp hp with rfl | hp
      · exact .inr hfree
      · exact .inl hp
    · exact (hr key x hx).imp_right (List.mem_cons_of_mem _)
  | @hold x hfree hx =>
    refine hhold hfree fun hr => ?_
    rw [stopOf_stop] at hx
    rcases hfind : w.stops.find? (·.key = x.key) with _ | y
    · rw [hfind] at hx
      exact .inl hx
    · rw [hfind] at hx
      cases hx
      exact hr _ _ hfind
  | @write x hlock hfree _ _ => exact hhold hfree fun _ => .inr hlock

/-- What another transaction has locked or taken a commit does not change. -/
theorem Locked.commit_stop (h : Locked s) (hk : s.txs[k]? = some t) {j : ℕ} {u : Tx} (hj : s.txs[j]? = some u) (hne : j ≠ k)
    (hu : (∃ shared, (LockKey.stop key, shared) ∈ u.work.locks) ∨ u.work.HasStop key) : (s.install t.work).stop key = s.stop key := by
  have hinstall : (s.install t.work).stop key = stopOf s t.work key := rfl
  rw [hinstall, stopOf_stop]
  rcases hfind : t.work.stops.find? (·.key = key) with _ | x
  · rw [hfind]
    rfl
  · rcases hu with ⟨shared, hlock⟩ | hstop
    · rcases (h.rows k t hk).1 key x hfind with hsame | hown
      · rw [hsame, hfind]
        rfl
      · exact absurd rfl (h.excluded k j t u _ _ (Ne.symm hne) hk hj hown hlock)
    · exact absurd (h.alone j k u t key hj hk hstop ⟨x, hfind⟩) hne

theorem Locked.commit (h : Locked s) (hk : s.txs[k]? = some t) : Locked ((s.install t.work).setTx k .idle) := by
  have hset := fun (j : ℕ) (u : Tx) (hj : (s.txs.set k .idle)[j]? = some u) => (getElem?_set_cases hk hj).imp_left And.right
  have hnone {key : StopKey} : ¬ Tx.idle.work.HasStop key := fun ⟨_, hx⟩ => nomatch hx
  refine ⟨fun j u pc hj hpc => ?_, fun j u p hj hp => ?_, fun j u key hj hs => ?_, fun i j u v key p hne hi hj hu hp => ?_,
    fun i j u v key hi hj hu hv => ?_, fun j u hj => ?_⟩
  · rcases hset j u hj with rfl | ⟨hne, hj⟩
    · cases hpc
    · refine (h.call j u pc hj hpc).of fun key hlock => ?_
      rw [stopOf_stop, stopOf_stop]
      exact congrArg _ (h.commit_stop hk hj hne (.inl hlock))
  · rcases hset j u hj with rfl | ⟨-, hj⟩
    · cases hp
    · exact h.savedLocks j u p hj hp
  · rcases hset j u hj with rfl | ⟨-, hj⟩
    · exact absurd hs hnone
    · exact h.savedStops j u key hj hs
  · rcases hset i u hi with rfl | ⟨-, hi⟩
    · cases hu
    rcases hset j v hj with rfl | ⟨-, hj⟩
    · cases hp
    · exact h.excluded i j u v key p hne hi hj hu hp
  · rcases hset i u hi with rfl | ⟨-, hi⟩
    · exact absurd hu hnone
    rcases hset j v hj with rfl | ⟨-, hj⟩
    · exact absurd hv hnone
    · exact h.alone i j u v key hi hj hu hv
  · rcases hset j u hj with rfl | ⟨hne, hj⟩
    · exact ⟨.none, .none⟩
    · obtain ⟨hwork, hsaved⟩ := h.rows j u hj
      exact ⟨hwork.congr fun key hs => h.commit_stop hk hj hne (.inr hs),
        hsaved.congr fun key hs => h.commit_stop hk hj hne (.inr (h.savedStops j u key hj hs))⟩

theorem Locked.congr (h : Locked s) (hstops : s'.stops = s.stops) (htxs : s'.txs = s.txs) : Locked s' := by
  have hstop (key : StopKey) : s'.stop key = s.stop key := by rw [State.stop, hstops, State.stop]
  refine ⟨fun k t pc hk hpc => ?_, ?_, ?_, ?_, ?_, fun k t hk => ?_⟩
  · refine (h.call k t pc (htxs ▸ hk) hpc).of fun key _ => ?_
    rw [stopOf_stop, stopOf_stop, hstop]
  · exact htxs ▸ h.savedLocks
  · exact htxs ▸ h.savedStops
  · exact htxs ▸ h.excluded
  · exact htxs ▸ h.alone
  · obtain ⟨hwork, hsaved⟩ := h.rows k t (htxs ▸ hk)
    exact ⟨hwork.congr fun key _ => hstop key, hsaved.congr fun key _ => hstop key⟩

/-- **Every action keeps the locks.** -/
theorem Locked.step {a : Action} (h : Locked s) (hstep : step s a s') : Locked s' := by
  cases step_happens hstep with
  | aside _ hstops _ htxs _ => exact h.congr hstops htxs
  | connect =>
    have happend := fun (j : ℕ) (u : Tx) (hj : (s.txs ++ [Tx.idle])[j]? = some u) => getElem?_concat_cases hj
    have hnone {key : StopKey} : ¬ Tx.idle.work.HasStop key := fun ⟨_, hx⟩ => nomatch hx
    refine ⟨fun j u pc hj hpc => ?_, fun j u p hj hp => ?_, fun j u key hj hs => ?_, fun i j u v key p hne hi hj hu hp => ?_,
      fun i j u v key hi hj hu hv => ?_, fun j u hj => ?_⟩
    · rcases happend j u hj with rfl | hj
      · cases hpc
      · exact (h.call j u pc hj hpc).of fun _ _ => rfl
    · rcases happend j u hj with rfl | hj
      · cases hp
      · exact h.savedLocks j u p hj hp
    · rcases happend j u hj with rfl | hj
      · exact absurd hs hnone
      · exact h.savedStops j u key hj hs
    · rcases happend i u hi with rfl | hi
      · cases hu
      rcases happend j v hj with rfl | hj
      · cases hp
      · exact h.excluded i j u v key p hne hi hj hu hp
    · rcases happend i u hi with rfl | hi
      · exact absurd hu hnone
      rcases happend j v hj with rfl | hj
      · exact absurd hv hnone
      · exact h.alone i j u v key hi hj hu hv
    · rcases happend j u hj with rfl | hj
      · exact ⟨.none, .none⟩
      · exact h.rows j u hj
  | @call k t c hk =>
    refine h.setTx hk (fun pc hpc => ?_) (fun _ hp => hp) (fun _ hs => hs) (fun _ hp => .inl hp) (fun _ hs => .inl hs)
      ⟨(h.rows k t hk).1, (h.rows k t hk).1⟩
    cases hpc
    exact start_locked c _
  | @run k t pc pc' w hk hpc hexec =>
    obtain ⟨htouch, hpc'⟩ := exec_touch (h.call k t pc hk hpc) (fun x hx => h.free hk ⟨x, hx⟩) hexec
    obtain ⟨hkeep, hlocks, hkeepStops, hstops, hrows⟩ := htouch.locked
    have h' : Locked { s with serial := s.serial + 2 } := h.congr rfl rfl
    refine h'.setTx (t := t) hk (fun pc hpc => ?_) (fun p hp => hkeep p (h.savedLocks k t p hk hp))
      (fun key hs => hkeepStops key (h.savedStops k t key hk hs)) hlocks hstops ⟨hrows (h.rows k t hk).1, (h.rows k t hk).2⟩
    cases hpc
    exact hpc'.of fun _ _ => rfl
  | commit hk => exact h.commit hk
  | rollback hk =>
    have hnone {key : StopKey} : ¬ Tx.idle.work.HasStop key := fun ⟨_, hx⟩ => nomatch hx
    refine h.setTx hk (fun pc hpc => nomatch hpc) (fun _ hp => hp) (fun _ hs => hs) (fun p hp => nomatch hp)
      (fun key hs => absurd hs hnone) ⟨.none, .none⟩
  | @rescue k t hk =>
    exact h.setTx hk (fun pc hpc => nomatch hpc) (fun _ hp => hp) (fun _ hs => hs) (fun p hp => .inl (h.savedLocks k t p hk hp))
      (fun key hs => .inl (h.savedStops k t key hk hs)) ⟨(h.rows k t hk).2, (h.rows k t hk).2⟩

theorem locked_init : Locked .init where
  call := fun _ _ _ hk => nomatch hk
  savedLocks := fun _ _ _ hk => nomatch hk
  savedStops := fun _ _ _ hk => nomatch hk
  excluded := fun _ _ _ _ _ _ _ hk => nomatch hk
  alone := fun _ _ _ _ _ hk => nomatch hk
  rows := fun _ _ hk => nomatch hk

end Locks

/-! ### New leases -/

/-- A lease that is open, and not committed. -/
def Work.New (s : State) (w : Work) (g : ℕ) (l : AdmissionLease) : Prop :=
  (l ∈ (booksOf s w g).leases ∧ l.isOpen = true) ∧ ∀ c ∈ (booksOf s .none g).leases, c.id ≠ l.id

/-- It has been admitted under the locks of its scopes, and no stop was pending. -/
structure Work.Fresh (s : State) (w : Work) (g : ℕ) (l : AdmissionLease) : Prop where
  expires : (w.expiries.lookup l.id).isSome
  locked : ∀ key ∈ l.keys g, ∃ shared, (LockKey.stop key, shared) ∈ w.locks
  free : ∀ key ∈ l.keys g, (∀ k, s.stop key = some k → k.isPending = false) ∨ (LockKey.stop key, false) ∈ w.locks
  own : ∀ e, StopKey.EXECUTION e ∈ l.keys g → s.stop (.EXECUTION e) = Option.none

def Work.Behind (s : State) (w : Work) : Prop := ∀ g l, w.New s g l → w.Fresh s g l

/-- **New leases are behind locks.** -/
def Behind (s : State) : Prop := ∀ (k : ℕ) (t : Tx), s.txs[k]? = some t → t.work.Behind s ∧ t.saved.Behind s

section News

variable {s s' : State} {k g : ℕ} {t : Tx} {w w' : Work} {l : AdmissionLease}

theorem lookup_cons_isSome {p : ℕ × ℤ} {l : List (ℕ × ℤ)} {id : ℕ} (h : (l.lookup id).isSome) : ((p :: l).lookup id).isSome := by
  rw [List.lookup_cons]
  split
  · rfl
  · exact h

/-- A stop of an execution is pending in every state. -/
theorem not_own_pending {key : StopKey} {e : String} (h : NotPending s w key) (he : key = .EXECUTION e) : s.stop key = Option.none := by
  rcases hstop : stopOf s w key with _ | k
  · rw [stopOf_stop] at hstop
    exact (Option.or_eq_none_iff.mp hstop).2
  · have hkey : k.key = .EXECUTION e := by
      rw [stopOf] at hstop
      rw [← he]
      simpa using List.find?_some hstop
    have hfree := h k hstop
    rcases hst : k.state <;> simp [KillSwitchState.isPending, hst, hkey] at hfree

theorem Work.Fresh.mono (h : w.Fresh s g l) (hexpiries : ∀ id, (w.expiries.lookup id).isSome → (w'.expiries.lookup id).isSome)
    (hlocks : ∀ p ∈ w.locks, p ∈ w'.locks) : w'.Fresh s g l where
  expires := hexpiries _ h.expires
  locked := fun key hkey => (h.locked key hkey).imp fun _ => hlocks _
  free := fun key hkey => (h.free key hkey).imp_right (hlocks _)
  own := h.own

theorem Work.Fresh.congr (h : w.Fresh s g l) (hstop : ∀ key ∈ l.keys g, s'.stop key = s.stop key) : w.Fresh s' g l where
  expires := h.expires
  locked := h.locked
  free := fun key hkey => (hstop key hkey).symm ▸ h.free key hkey
  own := fun e he => (hstop _ he).trans (h.own e he)

theorem Touch.behind {others : List Work} {pc : Pc} (h : Touch s others w pc w') (hpc : pc.Locked s w) (hrows : w.Rows s)
    (hb : w.Behind s) : w'.Behind s := by
  obtain ⟨hkeep, -⟩ := h.locked
  have hsame (hexpiries : ∀ id, (w.expiries.lookup id).isSome → (w'.expiries.lookup id).isSome) {g : ℕ} {l : AdmissionLease}
      (hl : l ∈ (booksOf s w g).leases) (hnew : w'.New s g l) : w'.Fresh s g l :=
    (hb g l ⟨⟨hl, hnew.1.2⟩, hnew.2⟩).mono hexpiries hkeep
  have hcons {p : ℕ × ℤ} (he : w'.expiries = p :: w.expiries) (id : ℕ) (hid : (w.expiries.lookup id).isSome) :
      (w'.expiries.lookup id).isSome := by
    rw [he]
    exact lookup_cons_isSome hid
  intro g l hnew
  cases h with
  | same _ _ hexpiries hleases => exact hsame (fun id hid => hexpiries ▸ hid) (hleases g l hnew.1.1 hnew.1.2) hnew
  | @enter a _ hpc' hlocks _ hexpiries hleases =>
    rcases hleases g l hnew.1.1 hnew.1.2 with hl | ⟨rfl, rfl⟩
    · exact hsame (hcons hexpiries) hl hnew
    · subst hpc'
      obtain ⟨hlocked, hfree⟩ := hpc
      have hkeys : (a.lease s.serial).keys a.r.grantId = a.keys := rfl
      rw [← hlocks] at hlocked
      refine ⟨?_, fun key hkey => ⟨true, hlocked _ (mem_admitLocks (hkeys ▸ hkey))⟩, fun key hkey => ?_,
        fun e he => not_own_pending (hfree _ (hkeys ▸ he)) rfl⟩
      · rw [hexpiries]
        simp [Admission.lease]
      · have hnot := hfree key (hkeys ▸ hkey)
        rcases hfind : w.stops.find? (·.key = key) with _ | x
        · refine .inl fun k hk => hnot k ?_
          rw [stopOf_stop, hfind]
          exact hk
        · have hview : stopOf s w key = some x := by rw [stopOf_stop, hfind]; rfl
          rcases hrows key x hfind with hsame | hown
          · refine .inl fun k hk => hnot k ?_
            rw [hview, ← hsame, hk]
          · exact .inr (hlocks ▸ hown)
  | renew _ _ _ hexpiries hheld _ =>
    refine hsame (hcons hexpiries) ?_ hnew
    have hl := hnew.1.1
    unfold booksOf at hl ⊢
    rwa [hheld] at hl
  | lock _ | hold _ _ | write _ _ _ _ => exact hsame (fun _ hid => hid) hnew.1.1 hnew

theorem Work.Behind.congr (h : w.Behind s) (hbooks : ∀ w g, booksOf s' w g = booksOf s w g) (hstops : s'.stops = s.stops) :
    w.Behind s' := by
  intro g l hnew
  rw [Work.New, hbooks, hbooks] at hnew
  exact (h g l hnew).congr fun key _ => by rw [State.stop, hstops, State.stop]

theorem Behind.congr (h : Behind s) (hbooks : ∀ w g, booksOf s' w g = booksOf s w g) (hstops : s'.stops = s.stops)
    (htxs : s'.txs = s.txs) : Behind s' := by
  intro k t hk
  obtain ⟨hwork, hsaved⟩ := h k t (htxs ▸ hk)
  exact ⟨hwork.congr hbooks hstops, hsaved.congr hbooks hstops⟩

theorem Work.Behind.none : Work.none.Behind s := fun _ l hnew => absurd rfl (hnew.2 l hnew.1.1)

theorem Behind.setTx (h : Behind s) {t' : Tx} (hk : s.txs[k]? = some t) (hwork : t'.work.Behind s) (hsaved : t'.saved.Behind s) :
    Behind (s.setTx k t') := by
  intro j u hj
  rcases getElem?_set_cases hk hj with ⟨-, rfl⟩ | ⟨-, hj⟩
  · exact ⟨hwork.congr (fun _ _ => rfl) rfl, hsaved.congr (fun _ _ => rfl) rfl⟩
  · obtain ⟨hwork, hsaved⟩ := h j u hj
    exact ⟨hwork.congr (fun _ _ => rfl) rfl, hsaved.congr (fun _ _ => rfl) rfl⟩

/-- The books behind a grant that the committing transaction does not hold. -/
theorem committed_install (ht : t.work.Sound s) : booksOf (s.install t.work) .none g = booksOf s t.work g := by
  rw [booksOf_install ht]
  rfl

theorem booksOf_unheld (h : w.held.lookup g = Option.none) : booksOf s w g = booksOf s .none g := by
  unfold booksOf
  rw [h]
  rfl

/-- Another transaction's new leases are still new after a commit, and are as they were. -/
theorem New.of_install (hs : Sound s) (hk : s.txs[k]? = some t) {j : ℕ} {u : Tx} (hj : s.txs[j]? = some u) (hne : j ≠ k)
    (hheld : ∀ g, (w.held.lookup g).isSome → (u.work.held.lookup g).isSome) (hnew : w.New (s.install t.work) g l) : w.New s g l := by
  have ht := (hs.txs k t hk).work
  obtain ⟨⟨hl, hopen⟩, hfresh⟩ := hnew
  rw [booksOf_install ht] at hl
  rw [committed_install ht] at hfresh
  split at hl
  · rename_i hg
    have hfree : t.work.held.lookup g = Option.none := by
      by_contra hc
      exact hne (hs.alone j k u t g hj hk (hheld g hg) (Option.isSome_iff_ne_none.mpr hc))
    rw [booksOf_unheld hfree] at hfresh
    exact ⟨⟨hl, hopen⟩, hfresh⟩
  · exact absurd rfl (hfresh l hl)

theorem Behind.commit (h : Behind s) (hs : Sound s) (hlocked : Locked s) (hk : s.txs[k]? = some t) :
    Behind ((s.install t.work).setTx k .idle) := by
  have hinstall : ∀ (j : ℕ) (u : Tx), s.txs[j]? = some u → j ≠ k →
      u.work.Behind (s.install t.work) ∧ u.saved.Behind (s.install t.work) := by
    intro j u hj hne
    obtain ⟨hwork, hsaved⟩ := h j u hj
    refine ⟨fun g l hnew => ?_, fun g l hnew => ?_⟩
    · have hfresh := hwork g l (New.of_install hs hk hj hne (fun _ hg => hg) hnew)
      exact hfresh.congr fun key hkey => hlocked.commit_stop hk hj hne (.inl (hfresh.locked key hkey))
    · have hfresh := hsaved g l (New.of_install hs hk hj hne (fun g => hs.savedHeld j u g hj) hnew)
      refine hfresh.congr fun key hkey => hlocked.commit_stop hk hj hne (.inl ?_)
      exact (hfresh.locked key hkey).imp fun _ hp => hlocked.savedLocks j u _ hj hp
  intro j u hj
  rcases getElem?_set_cases hk hj with ⟨-, rfl⟩ | ⟨hne, hj⟩
  · exact ⟨.none, .none⟩
  · obtain ⟨hwork, hsaved⟩ := hinstall j u hj hne
    exact ⟨hwork.congr (fun _ _ => rfl) rfl, hsaved.congr (fun _ _ => rfl) rfl⟩

/-- **Every action keeps new leases behind locks.** -/
theorem Behind.step {a : Action} (h : Behind s) (hs : Sound s) (hlocked : Locked s) (hstep : step s a s') : Behind s' := by
  cases step_happens hstep with
  | aside hbooks hstops _ htxs _ => exact h.congr hbooks hstops htxs
  | connect =>
    intro j u hj
    rcases getElem?_concat_cases hj with rfl | hj
    · exact ⟨.none, .none⟩
    · obtain ⟨hwork, hsaved⟩ := h j u hj
      exact ⟨hwork.congr (fun _ _ => rfl) rfl, hsaved.congr (fun _ _ => rfl) rfl⟩
  | @call k t c hk => exact h.setTx hk (h k t hk).1 (h k t hk).1
  | @run k t pc pc' w hk hpc hexec =>
    have hpcl := hlocked.call k t pc hk hpc
    obtain ⟨htouch, -⟩ := exec_touch hpcl (fun x hx => hlocked.free hk ⟨x, hx⟩) hexec
    have h' : Behind { s with serial := s.serial + 2 } := h.congr (fun _ _ => rfl) rfl rfl
    obtain ⟨hwork, hsaved⟩ := h k t hk
    have hbehind := htouch.behind hpcl (hlocked.rows k t hk).1 hwork
    exact h'.setTx (t := t) hk (hbehind.congr (fun _ _ => rfl) rfl) (hsaved.congr (fun _ _ => rfl) rfl)
  | commit hk => exact h.commit hs hlocked hk
  | rollback hk => exact h.setTx hk .none .none
  | @rescue k t hk => exact h.setTx hk (h k t hk).2 (h k t hk).2

/-- What is true of every run. -/
theorem behind_reachable (h : Reaches step .init s) : Sound s ∧ Locked s ∧ Behind s := by
  refine h.inv (I := fun s => Sound s ∧ Locked s ∧ Behind s) ⟨sound_init, locked_init, fun _ _ hk => nomatch hk⟩ fun s a s' hs hstep => ?_
  exact ⟨hs.1.step hstep, hs.2.1.step hstep, hs.2.2.step hs.1 hs.2.1 hstep⟩

end News

end WebAudit.Safety
