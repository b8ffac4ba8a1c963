import WebAudit.Lib.Runs
import WebAudit.Safety.Calls

/-!
# Everything that happens to the safety tables

`next` is what an action leads to: the next statement of a transaction, a commit, a rollback, the
clock, and what the rest of the platform does to the tables that admission reads.

`Effect` says once what a statement can do to the books that its transaction holds, and
`exec_effect` that it can do nothing else.
-/

namespace WebAudit.Safety

open WebAudit.Lib

/-! ### Calls -/

inductive Call where
  | admission (r : AdmitRequest)
  | renew (leaseId token : ℕ)
  | releaseByToken (leaseId token : ℕ)
  | releaseByExecution (executionId : String)
  | reclaim (limit : ℕ)
  | triggerStop (key : StopKey) (triggeredBy : Option ℕ) (reason : KillSwitchReason)
  | ackStop (key : StopKey)
  | recordStopped (key : StopKey)
  | reconcile (limit : ℕ) (graceSeconds : ℤ)
  deriving DecidableEq

/-- There is an id in the key. -/
def StopKey.isNamed : StopKey → Bool
  | .EXECUTION id => id ≠ ""
  | _ => true

/-- The checks of the arguments, and the first statement. -/
def Call.start (now : ℤ) : Call → Pc
  | .admission r =>
    if r.executionId = "" || r.idempotencyKey = "" || !(r.consumeRequest || r.consumeConcurrency) then .raised
    else .target r now
  | .renew leaseId token => .renewRead leaseId token now
  | .releaseByToken leaseId token => .tokenRead leaseId token now
  | .releaseByExecution executionId => if executionId = "" then .raised else .executionRead executionId now
  | .reclaim limit => if limit < 1 || limit > 1000 then .raised else .reclaimRead ⟨limit, now, 0, 0, 0⟩
  | .triggerStop key triggeredBy reason => if key.isNamed then .triggerAuthority key triggeredBy reason else .raised
  | .ackStop key => if key.isNamed then .ackLock key else .raised
  | .recordStopped key => if key.isNamed then .stoppedLock key else .raised
  | .reconcile limit graceSeconds =>
    if limit < 1 || limit > 500 || graceSeconds < 0 then .raised
    else .reconcileRead ⟨limit, graceSeconds * 1000, now, 0, 0, 0⟩

/-- The call has returned. -/
def Pc.isOver : Pc → Bool
  | .admitted .. | .renewed .. | .released _ | .releasedAll _ | .reclaimed _ | .triggered .. | .acknowledged ..
  | .stopped _ | .reconciled _ => true
  | _ => false

/-- The next statement of a call. -/
def exec (s : State) (others : List Work) (w : Work) (pc : Pc) : Option (Work × Pc) :=
  (admitStep s others w pc).or <| (renewStep s others w pc).or <| (releaseStep s others w pc).or <|
    (reclaimStep s others w pc).or <| stopStep s others w pc

/-! ### The machine -/

inductive Action where
  | tick (ms : ℕ)
  | setOperators (operators : List ℕ)
  | createTarget (userId : ℕ) (classification : Option TargetEnvironmentClassification)
  | classify (targetId : ℕ) (classification : Option TargetEnvironmentClassification)
  | createScan (userId targetId : ℕ)
  /-- A grant is made, its budgets within their limits. -/
  | authorize (grant : TargetAuthorization)
  | revoke (grantId : ℕ)
  | connect
  | call (tx : ℕ) (c : Call)
  /-- The next statement of a transaction. -/
  | run (tx : ℕ)
  | commit (tx : ℕ)
  | rollback (tx : ℕ)
  /-- A call fails, the savepoint before it is gone back to. -/
  | rescue (tx : ℕ)
  deriving DecidableEq

/-- What everyone else has done and locked. -/
def State.others (s : State) (k : ℕ) : List Work := (s.txs.eraseIdx k).map (·.work)

/-- A transaction's work is there for all to see. -/
def State.install (s : State) (w : Work) : State :=
  { s with
    accounts := s.accounts.mapIdx fun g account => { account with books := (w.held.lookup g).getD account.books }
    expiry := w.expiries ++ s.expiry
    stops := stopsOf s w }

def State.setTx (s : State) (k : ℕ) (t : Tx) : State := { s with txs := s.txs.set k t }

/-- No call is under way. -/
def Tx.isIdle (t : Tx) : Bool := t.call.all Pc.isOver

def next (s : State) : Action → Option State
  | .tick ms => some { s with clock := s.clock + ms }
  | .setOperators operators => some { s with operators }
  | .createTarget userId classification => some { s with targets := s.targets ++ [⟨userId, classification⟩] }
  | .classify targetId classification =>
    some { s with targets := s.targets.modify targetId fun target => { target with classification } }
  | .createScan userId targetId => some { s with scans := s.scans ++ [⟨userId, targetId⟩] }
  | .authorize grant =>
    if 1 ≤ grant.requestBudget ∧ 1 ≤ grant.concurrencyBudget then
      some { s with accounts := s.accounts ++ [⟨{ grant with revokedAt := none }, .empty⟩] }
    else none
  | .revoke g =>
    some { s with accounts := s.accounts.modify g fun account =>
      { account with grant := { account.grant with revokedAt := account.grant.revokedAt.or (some s.clock) } } }
  | .connect => some { s with txs := s.txs ++ [.idle] }
  | .call k c => do
    let t ← s.txs[k]?
    if t.isIdle then some (s.setTx k ⟨t.work, t.work, some (c.start s.clock)⟩) else none
  | .run k => do
    let t ← s.txs[k]?
    let pc ← t.call
    let (w, pc') ← exec s (s.others k) t.work pc
    some ({ s with serial := s.serial + 2 }.setTx k ⟨w, t.saved, some pc'⟩)
  | .commit k => do
    let t ← s.txs[k]?
    if t.isIdle then some ((s.install t.work).setTx k .idle) else none
  | .rollback k => do
    let _ ← s.txs[k]?
    some (s.setTx k .idle)
  | .rescue k => do
    let t ← s.txs[k]?
    some (s.setTx k ⟨t.saved, t.saved, none⟩)

def step (s : State) (a : Action) (s' : State) : Prop := next s a = some s'

/-- Nothing is there. -/
def State.init : State := ⟨[], [], [], [], [], [], [], 0, 0⟩

/-! ### What a statement does to the books -/

/-- The budgets that an admission goes by are those of the grant. -/
def Admission.Matches (s : State) (a : Admission) : Prop :=
  ∃ account, s.accounts[a.r.grantId]? = some account ∧ account.grant.requestBudget = a.grant.requestBudget ∧
    account.grant.concurrencyBudget = a.grant.concurrencyBudget

/-- The transaction has the counter row, and there is one. -/
def Work.HasCounter (w : Work) (g : ℕ) : Prop := ∃ b, w.held.lookup g = some b ∧ b.counter.isSome

/-- What is known at each statement. -/
def Pc.Sound (s : State) (w : Work) : Pc → Prop
  | .scan a | .tenant a | .lock a _ | .pending a | .environment a | .counter a => a.Matches s
  | .replay a | .leased a | .book a => a.Matches s ∧ w.HasCounter a.r.grantId
  | .tokenCounter _ g _ => g < s.accounts.length
  | .tokenUpdate _ g _ => g < s.accounts.length ∧ (w.held.lookup g).isSome
  | .executionNext _ _ grants _ => ∀ g ∈ grants, g < s.accounts.length
  | .executionUpdate _ _ g grants _ => (g < s.accounts.length ∧ (w.held.lookup g).isSome) ∧ ∀ g ∈ grants, g < s.accounts.length
  | .reclaimNext _ grants | .driftNext _ grants => ∀ g ∈ grants, g < s.accounts.length
  | .reclaimUpdate _ g grants | .driftUpdate _ g grants =>
    (g < s.accounts.length ∧ (w.held.lookup g).isSome) ∧ ∀ g ∈ grants, g < s.accounts.length
  | _ => True

/-- The row is stamped once, and nothing else of it changes. -/
structure Stamps (stamp : AdmissionLease → AdmissionLease) : Prop where
  closed : ∀ l, (stamp l).isOpen = false
  id : ∀ l, (stamp l).id = l.id

/-- What a statement can do to the books that its transaction holds. -/
inductive Effect (s : State) (others : List Work) (w : Work) : Work → Prop where
  | same {w' : Work} (hheld : w'.held = w.held) (hrows : w'.rows = w.rows) (hexpiries : w'.expiries = w.expiries) :
      Effect s others w w'
  /-- A counter row is locked. -/
  | take {g : ℕ} {b : Books} (hg : g < s.accounts.length) (hfree : counterFree others g = true)
      (hb : b = booksOf s w g ∨ b = (booksOf s w g).withCounter) : Effect s others w (w.hold g b)
  /-- An admission is granted. -/
  | enter {a : Admission} {w' : Work} (hm : a.Matches s) (hc : w.HasCounter a.r.grantId)
      (hrequest : a.r.consumeRequest = true → (booksOf s w a.r.grantId).consumedRequests + 1 ≤ a.grant.requestBudget)
      (hconcurrency : a.r.consumeConcurrency = true →
        (booksOf s w a.r.grantId).activeConcurrency + 1 ≤ a.grant.concurrencyBudget)
      (hheld : w'.held = (w.hold a.r.grantId (a.enter s.serial (booksOf s w a.r.grantId))).held) (hrows : w'.rows = w.rows) :
      Effect s others w w'
  /-- Leases are closed. -/
  | close {g : ℕ} {p : AdmissionLease → Bool} {stamp : AdmissionLease → AdmissionLease} {f : ℤ → ℤ}
      (hg : g < s.accounts.length) (hheld : (w.held.lookup g).isSome) (hstamp : Stamps stamp)
      (hfree : ∀ l ∈ (booksOf s w g).closing p, rowFree others l.id = true)
      (hf : (∀ n, f n = ((booksOf s w g).close p stamp).openCount) ∨ (∀ n, f n = max (n - ((booksOf s w g).closing p).length) 0) ∨
        (∃ id : ℕ, p = fun l : AdmissionLease => decide (l.id = id)) ∧ (booksOf s w g).closing p ≠ [] ∧ ∀ n, f n = max (n - 1) 0) :
      Effect s others w (w.close g (booksOf s w g) p stamp f)
  /-- A lease is renewed. -/
  | renew {x : Renewal} {w' : Work} (hfree : rowFree others x.lease.id = true)
      (hlive : (booksOf s w x.grantId).leases.any (fun l =>
        l.id = x.lease.id && l.holderToken = x.lease.holderToken && isLive s w x.now l) = true)
      (hheld : w'.held = w.held) (hrows : w'.rows = x.lease.id :: w.rows)
      (hexpiries : w'.expiries = (x.lease.id, x.now + leaseMs) :: w.expiries) : Effect s others w w'
  /-- A counter that was wrong is put right. -/
  | correct {g : ℕ} (hg : g < s.accounts.length) (hheld : (w.held.lookup g).isSome) :
      Effect s others w (w.hold g ((booksOf s w g).setActive fun _ => (booksOf s w g).openCount))

theorem stamps_release (now : ℤ) : Stamps (·.release now) := ⟨fun _ => rfl, fun _ => rfl⟩

theorem stamps_reclaim (now : ℤ) : Stamps (·.reclaim now) :=
  ⟨fun l => by simp [AdmissionLease.isOpen, AdmissionLease.reclaim], fun _ => rfl⟩

/-! ### Work -/

section Work

variable {s : State} {others : List Work} {w w' : Work} {g g' : ℕ} {b : Books}

theorem lookup_filter_ne (l : List (ℕ × Books)) (h : g' ≠ g) : (l.filter (·.1 ≠ g)).lookup g' = l.lookup g' := by
  induction l with
  | nil => rfl
  | cons p l ih =>
    obtain ⟨a, b⟩ := p
    by_cases ha : a = g
    · rw [List.filter_cons_of_neg (by simpa using ha), List.lookup_cons, ih]
      have hne : (g' == a) = false := by simp [ha, h]
      rw [hne]
    · rw [List.filter_cons_of_pos (by simpa using ha), List.lookup_cons, List.lookup_cons, ih]

@[simp] theorem lookup_hold : (w.hold g b).held.lookup g = some b := by simp [Work.hold]

theorem lookup_hold_ne (h : g' ≠ g) : (w.hold g b).held.lookup g' = w.held.lookup g' := by
  have hne : (g' == g) = false := by simpa using h
  simp only [Work.hold, List.lookup_cons, hne]
  exact lookup_filter_ne w.held h

theorem booksOf_held (h : w.held.lookup g = some b) : booksOf s w g = b := by
  unfold booksOf
  rw [h]

theorem booksOf_free {account : Account} (h : w.held.lookup g = none) (ha : s.accounts[g]? = some account) :
    booksOf s w g = account.books := by
  unfold booksOf
  rw [h, ha]
  rfl

theorem findLease_some {id : ℕ} {p : ℕ × AdmissionLease} (h : findLease s w id = some p) :
    p.1 < s.accounts.length ∧ p.2 ∈ (booksOf s w p.1).leases ∧ p.2.id = id := by
  have hmem := List.mem_of_find?_eq_some h
  have hid : p.2.id = id := by simpa using List.find?_some h
  obtain ⟨g, hg, hp⟩ := List.mem_flatMap.mp hmem
  obtain ⟨l, hl, rfl⟩ := List.mem_map.mp hp
  exact ⟨List.mem_range.mp hg, hl, hid⟩

end Work

/-! ### The statements -/

section Statements

variable {s : State} {others : List Work} {w w' : Work} {pc pc' : Pc}

/-- What a statement does, and what is known afterwards. -/
def Does (s : State) (others : List Work) (w w' : Work) (pc' : Pc) : Prop := Effect s others w w' ∧ pc'.Sound s w'

theorem Does.nothing (h : pc'.Sound s w) : Does s others w w pc' := ⟨.same rfl rfl rfl, h⟩

theorem matchingGrant_some {r : AdmitRequest} {user : ℕ} {grant : TargetAuthorization} (h : matchingGrant s r user = some grant)
    (now : ℤ) : Admission.Matches s ⟨r, now, user, grant⟩ := by
  obtain ⟨hmem, -⟩ := Option.filter_eq_some_iff.mp h
  obtain ⟨account, ha, rfl⟩ := Option.map_eq_some_iff.mp hmem
  exact ⟨account, ha, rfl, rfl⟩

theorem Admission.Matches.lt {a : Admission} (h : a.Matches s) : a.r.grantId < s.accounts.length := by
  obtain ⟨account, ha, -⟩ := h
  exact (List.getElem?_eq_some_iff.mp ha).1

theorem admit_does (hpc : pc.Sound s w) (h : admitStep s others w pc = some (w', pc')) : Does s others w w' pc' := by
  unfold admitStep at h
  split at h
  · split at h <;> cases h <;> exact .nothing trivial
  · split at h
    · cases h
      exact .nothing trivial
    · rename_i hgrant
      cases h
      exact .nothing (matchingGrant_some hgrant _)
  · split at h
    · cases h
      exact .nothing hpc
    · cases h
      exact .nothing trivial
  · split at h
    · cases h
      exact .nothing trivial
    · cases h
      exact .nothing hpc
  · cases h
    exact .nothing hpc
  · split at h
    · cases h
      exact ⟨.same rfl rfl rfl, hpc⟩
    · cases h
  · split at h
    · cases h
      exact .nothing trivial
    · split at h
      · cases h
        exact .nothing trivial
      · split at h
        · cases h
          exact .nothing trivial
        · cases h
          exact .nothing hpc
  · split at h
    · split at h
      · cases h
        exact .nothing hpc
      · cases h
        exact .nothing trivial
    · cases h
      exact .nothing trivial
  · split at h
    · rename_i hfree
      cases h
      exact ⟨.take hpc.lt hfree (.inr rfl), hpc, _, lookup_hold, rfl⟩
    · cases h
  · dsimp only at h
    split at h
    · cases h
      exact .nothing trivial
    · split at h
      · cases h
        exact .nothing trivial
      · cases h
        exact .nothing hpc
  · split at h
    · cases h
      exact .nothing trivial
    · cases h
      exact .nothing hpc
  · rename_i a
    dsimp only at h
    obtain ⟨hm, hc⟩ := hpc
    split at h
    · cases h
      exact .nothing trivial
    rename_i hrequest
    split at h
    · cases h
      exact .nothing trivial
    rename_i hconcurrency
    have hr : a.r.consumeRequest = true → (booksOf s w a.r.grantId).consumedRequests + 1 ≤ a.grant.requestBudget := by
      intro hr
      simp only [hr, Bool.true_and, decide_eq_true_eq] at hrequest
      omega
    have hn : a.r.consumeConcurrency = true →
        (booksOf s w a.r.grantId).activeConcurrency + 1 ≤ a.grant.concurrencyBudget := by
      intro hn
      simp only [hn, Bool.true_and, decide_eq_true_eq] at hconcurrency
      omega
    split at h <;> cases h
    · exact ⟨.enter hm hc hr hn rfl rfl, trivial⟩
    · exact ⟨.enter hm hc hr hn rfl rfl, trivial⟩
  · cases h

theorem renew_does (h : renewStep s others w pc = some (w', pc')) : Does s others w w' pc' := by
  unfold renewStep at h
  split at h
  · split at h
    · cases h
      exact .nothing trivial
    · split at h <;> cases h <;> exact .nothing trivial
  · split at h <;> cases h <;> exact .nothing trivial
  · split at h
    · cases h
      exact .nothing trivial
    · split at h
      · cases h
        exact .nothing trivial
      · split at h <;> cases h <;> exact .nothing trivial
  · split at h
    · rename_i hfree
      split at h
      · rename_i hlive
        cases h
        exact ⟨.renew hfree hlive rfl rfl rfl, trivial⟩
      · cases h
        exact .nothing trivial
    · cases h
  · cases h

theorem release_does (hpc : pc.Sound s w) (h : releaseStep s others w pc = some (w', pc')) : Does s others w w' pc' := by
  unfold releaseStep at h
  split at h
  · split at h
    · cases h
      exact .nothing trivial
    · rename_i hfind
      split at h <;> cases h
      · exact .nothing trivial
      · exact .nothing (findLease_some hfind).1
  · split at h
    · rename_i hfree
      cases h
      exact ⟨.take hpc hfree (.inl rfl), hpc, by rw [lookup_hold]; rfl⟩
    · cases h
  · rename_i leaseId g now
    dsimp only at h
    split at h
    · rename_i hfree
      split at h
      · cases h
        exact .nothing trivial
      · rename_i hne
        cases h
        refine ⟨.close hpc.1 hpc.2 (stamps_release now) (List.all_eq_true.mp hfree) (.inr (.inr ⟨⟨leaseId, rfl⟩, ?_, fun _ => rfl⟩)),
          trivial⟩
        simpa using hne
    · cases h
  · cases h
    exact .nothing fun g hg => List.mem_range.mp (List.mem_filter.mp hg).1
  · cases h
    exact .nothing trivial
  · split at h
    · rename_i hfree
      cases h
      have hg := hpc _ (List.mem_cons_self ..)
      exact ⟨.take hg hfree (.inl rfl), ⟨hg, by rw [lookup_hold]; rfl⟩, fun g' hg' => hpc g' (List.mem_cons_of_mem _ hg')⟩
    · cases h
  · rename_i executionId now g grants total
    dsimp only at h
    obtain ⟨⟨hg, hheld⟩, hrest⟩ := hpc
    split at h
    · rename_i hfree
      split at h <;> cases h
      · exact .nothing hrest
      · exact ⟨.close hg hheld (stamps_release now) (List.all_eq_true.mp hfree) (.inr (.inl fun _ => rfl)), hrest⟩
    · cases h
  · cases h

theorem reclaim_does (hpc : pc.Sound s w) (h : reclaimStep s others w pc = some (w', pc')) : Does s others w w' pc' := by
  unfold reclaimStep at h
  split at h
  · cases h
    exact .nothing fun g hg => List.mem_range.mp (List.mem_filter.mp (List.mem_of_mem_take hg)).1
  · cases h
    exact .nothing trivial
  · have hg := hpc _ (List.mem_cons_self ..)
    have hrest := fun g' hg' => hpc g' (List.mem_cons_of_mem _ hg')
    split at h
    · rename_i hfree
      cases h
      exact ⟨.take hg (Bool.and_eq_true_iff.mp hfree).1 (.inl rfl), ⟨hg, by rw [lookup_hold]; rfl⟩, hrest⟩
    · cases h
      exact .nothing hrest
  · rename_i x g grants
    dsimp only at h
    obtain ⟨⟨hg, hheld⟩, hrest⟩ := hpc
    split at h
    · rename_i hfree
      cases h
      exact ⟨.close hg hheld (stamps_reclaim x.now) (List.all_eq_true.mp hfree) (.inl fun _ => rfl), hrest⟩
    · cases h
  · cases h
    exact .nothing fun g hg => List.mem_range.mp (List.mem_filter.mp (List.mem_of_mem_take hg)).1
  · cases h
    exact .nothing trivial
  · have hg := hpc _ (List.mem_cons_self ..)
    have hrest := fun g' hg' => hpc g' (List.mem_cons_of_mem _ hg')
    split at h
    · rename_i hfree
      cases h
      exact ⟨.take hg (Bool.and_eq_true_iff.mp hfree).1 (.inl rfl), ⟨hg, by rw [lookup_hold]; rfl⟩, hrest⟩
    · cases h
      exact .nothing hrest
  · dsimp only at h
    obtain ⟨⟨hg, hheld⟩, hrest⟩ := hpc
    split at h <;> cases h
    · exact ⟨.correct hg hheld, hrest⟩
    · exact .nothing hrest
  · cases h

/-- The statements of a stop touch no books. -/
theorem stop_does (h : stopStep s others w pc = some (w', pc')) : Does s others w w' pc' := by
  have hwrite {k : KillSwitchState} {state : StopLifecycleState} {next : Pc} (h : writeStop w k state next = some (w', pc'))
      (hn : next.Sound s (w.holdStop { k with state := state })) : Does s others w w' pc' := by
    unfold writeStop at h
    split at h <;> cases h
    · exact ⟨.same rfl rfl rfl, hn⟩
    · exact .nothing trivial
  have hselect {key : StopKey} {f : Option KillSwitchState → Option (Work × Pc)}
      (hf : ∀ k, f k = some (w', pc') → Does s others w w' pc') (h : selectStop s others w key f = some (w', pc')) :
      Does s others w w' pc' := by
    unfold selectStop at h
    split at h
    · exact hf _ h
    · cases h
  unfold stopStep at h
  split at h
  · cases h
    refine .nothing ?_
    split <;> exact trivial
  · split at h <;> cases h
    exact ⟨.same rfl rfl rfl, trivial⟩
  · refine hselect (fun k hk => ?_) h
    rcases k with _ | k
    · cases hk
      exact ⟨.same rfl rfl rfl, trivial⟩
    · dsimp only at hk
      split at hk
      · exact hwrite hk trivial
      · cases hk
        exact ⟨.same rfl rfl rfl, trivial⟩
  · split at h <;> cases h
    exact ⟨.same rfl rfl rfl, trivial⟩
  · refine hselect (fun k hk => ?_) h
    rcases k with _ | k
    · cases hk
      exact .nothing trivial
    · dsimp only at hk
      split at hk
      · exact hwrite hk trivial
      · cases hk
        exact ⟨.same rfl rfl rfl, trivial⟩
  · split at h <;> cases h
    exact ⟨.same rfl rfl rfl, trivial⟩
  · refine hselect (fun k hk => ?_) h
    rcases k with _ | k
    · cases hk
      exact .nothing trivial
    · dsimp only at hk
      split at hk <;> cases hk <;> exact ⟨.same rfl rfl rfl, trivial⟩
  · cases h
    refine .nothing ?_
    split <;> exact trivial
  · exact hwrite h trivial
  · cases h
    exact .nothing trivial
  · cases h
    exact .nothing trivial
  · split at h
    · cases h
      exact .nothing trivial
    · split at h <;> cases h
      · exact ⟨.same rfl rfl rfl, trivial⟩
      · exact .nothing trivial
  · split at h <;> cases h
    · exact ⟨.same rfl rfl rfl, trivial⟩
    · exact .nothing trivial
  · cases h
    refine .nothing ?_
    split <;> exact trivial
  · split at h
    · split at h
      · exact hwrite h trivial
      · cases h
        exact .nothing trivial
    · exact hwrite h trivial
  · cases h

/-- **What a statement can do.** -/
theorem exec_does (hpc : pc.Sound s w) (h : exec s others w pc = some (w', pc')) : Does s others w w' pc' := by
  unfold exec at h
  rcases Option.or_eq_some_iff.mp h with h | ⟨-, h⟩
  · exact admit_does hpc h
  rcases Option.or_eq_some_iff.mp h with h | ⟨-, h⟩
  · exact renew_does h
  rcases Option.or_eq_some_iff.mp h with h | ⟨-, h⟩
  · exact release_does hpc h
  rcases Option.or_eq_some_iff.mp h with h | ⟨-, h⟩
  · exact reclaim_does hpc h
  · exact stop_does h

end Statements

end WebAudit.Safety
