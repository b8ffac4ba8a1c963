import WebAudit.Safety.Stops

/-!
# Revocation beside admission

`revokeAuthorization` and `narrowAuthorization` of `services/authorization` set the `revokedAt` of a
grant. The first triggers the stop of the grant in the same transaction, so that it waits for the
admissions that have the lock of that scope; the second puts a narrower grant in its place and
triggers nothing. An admission reads the grant before it takes its locks, and goes by that copy.

## The model

* A revocation is a transaction of `System` that has updated the row of a grant: what it calls then
  is `f07_trigger_stop`, and it commits when that has returned. `narrowAuthorization` is one step.
* The update of a row waits while another transaction has updated it; the caller's clock is the
  database's.
-/

namespace WebAudit.Safety

open WebAudit.Lib

/-! ### The machine -/

structure Revoking where
  f07 : State
  /-- Transactions that have updated a grant, each with the grant. -/
  updates : List (ℕ × ℕ)
  deriving DecidableEq

/-- What a narrower grant may have less of. -/
structure NarrowedBudgets where
  requestBudget : ℤ
  concurrencyBudget : ℤ
  expiresAt : ℤ
  deriving DecidableEq

inductive RevokingAction where
  | f07 (a : Action)
  | revokeAuthorization (tx grantId : ℕ)
  | narrowAuthorization (grantId : ℕ) (budgets : NarrowedBudgets)
  deriving DecidableEq

/-- `WHERE "revokedAt" IS NULL`, of a grant that has not expired and whose row is nobody's. -/
def Revoking.canUpdate (s : Revoking) (g : ℕ) : Option TargetAuthorization :=
  ((s.f07.accounts[g]?).map (·.grant)).filter fun grant =>
    grant.revokedAt.isNone && decide (s.f07.clock < grant.expiresAt) && s.updates.all (·.2 ≠ g)

/-- The transaction is one of `revokeAuthorization`. -/
def Revoking.grantOf (s : Revoking) (k : ℕ) : Option ℕ := (s.updates.find? (·.1 = k)).map (·.2)

def Revoking.drop (s : Revoking) (f07 : State) (k : ℕ) : Revoking := ⟨f07, s.updates.filter (·.1 ≠ k)⟩

/-- `insertGrant` of the replacement. -/
def TargetAuthorization.narrowed (grant : TargetAuthorization) (budgets : NarrowedBudgets) : TargetAuthorization :=
  { grant with
    requestBudget := min budgets.requestBudget grant.requestBudget
    concurrencyBudget := min budgets.concurrencyBudget grant.concurrencyBudget
    expiresAt := min budgets.expiresAt grant.expiresAt }

def revokingNext (s : Revoking) : RevokingAction → Option Revoking
  | .f07 (.revoke _) => none
  | .f07 (.call k c) => do
    if (s.grantOf k).isSome then none else (next s.f07 (.call k c)).map fun f07 => { s with f07 }
  | .f07 (.rescue k) => do
    if (s.grantOf k).isSome then none else (next s.f07 (.rescue k)).map fun f07 => { s with f07 }
  | .f07 (.rollback k) => (next s.f07 (.rollback k)).map fun f07 => s.drop f07 k
  | .f07 (.commit k) =>
    match s.grantOf k with
    | none => (next s.f07 (.commit k)).map fun f07 => { s with f07 }
    | some g => do
      let t ← s.f07.txs[k]?
      match t.call with
      | some (.triggered _ _) =>
        let f07 ← next s.f07 (.commit k)
        let f07 ← next f07 (.revoke g)
        some (s.drop f07 k)
      | _ => none
  | .f07 a => (next s.f07 a).map fun f07 => { s with f07 }
  | .revokeAuthorization k g => do
    let _ ← s.canUpdate g
    if s.f07.txs[k]? = some .idle ∧ s.grantOf k = none then
      (next s.f07 (.call k (.triggerStop (.GRANT g) none .AUTHORIZATION_REVOKED))).map fun f07 => ⟨f07, (k, g) :: s.updates⟩
    else none
  | .narrowAuthorization g budgets => do
    let grant ← s.canUpdate g
    let f07 ← next s.f07 (.revoke g)
    (next f07 (.authorize (grant.narrowed budgets))).map fun f07 => { s with f07 }

def revokingStep (s : Revoking) (a : RevokingAction) (s' : Revoking) : Prop := revokingNext s a = some s'

def Revoking.init : Revoking := ⟨.init, []⟩

/-! ### Admissions under way -/

/-- The admission that a call is at, once it has read the grant. -/
def Pc.admission : Pc → Option Admission
  | .scan a | .tenant a | .lock a _ | .pending a | .environment a | .counter a | .replay a | .leased a | .book a => some a
  | _ => none

/-- It has looked for stops. -/
def Pc.isLate : Pc → Bool
  | .environment _ | .counter _ | .replay _ | .leased _ | .book _ => true
  | _ => false

/-- The rows are those that are committed, but for what is closed. -/
def Clean (s : State) (w : Work) (g : ℕ) : Prop :=
  (booksOf s w g).leases.map (·.id) = (booksOf s .none g).leases.map (·.id) ∧
    (booksOf s w g).consumptions = (booksOf s .none g).consumptions

instance (s : State) (w : Work) (g : ℕ) : Decidable (Clean s w g) := inferInstanceAs (Decidable (_ ∧ _))

/-- The grant is revoked. -/
def State.Revoked (s : State) (g : ℕ) : Prop := (s.accounts[g]?).any (fun account => account.grant.revokedAt.isSome) = true

instance (s : State) (g : ℕ) : Decidable (s.Revoked g) := inferInstanceAs (Decidable (_ = true))

/-- No grant is replaced while an admission that has read it is under way or not committed; and none that has read it before it was
revoked looks for stops when that of the grant has been stopped. -/
def orderly (s : Revoking) : RevokingAction → Bool
  | .narrowAuthorization g _ => s.f07.txs.all fun t =>
    t.call.all (fun pc => pc.admission.all fun a => decide (a.r.grantId ≠ g)) && decide (Clean s.f07 t.work g) && decide (Clean s.f07 t.saved g)
  | .f07 (.run k) => (s.f07.txs[k]?).all fun t => t.call.all fun
    | .pending a => a.grant.revokedAt.isSome || !decide (s.f07.Revoked a.r.grantId) ||
      !(stopOf s.f07 t.work (.GRANT a.r.grantId)).any fun x => decide (x.state = .STOPPED)
    | _ => true
  | _ => true

/-- The steps of the runs in which this is so. -/
def orderlyStep : Revoking → RevokingAction → Revoking → Prop := Guarded revokingStep fun s a _ => orderly s a = true

/-! ### What a statement does to an admission -/

/-- The ids of the leases and the consumption rows are the same. -/
def SameKeys (b b' : Books) : Prop := b'.leases.map (·.id) = b.leases.map (·.id) ∧ b'.consumptions = b.consumptions

instance (b b' : Books) : Decidable (SameKeys b b') := inferInstanceAs (Decidable (_ ∧ _))

section Statements

variable {s : State} {others : List Work} {w w' : Work} {pc pc' : Pc} {g : ℕ}

theorem sameKeys_of_held (h : w'.held = w.held) : SameKeys (booksOf s w g) (booksOf s w' g) := by
  unfold booksOf
  rw [h]
  exact ⟨rfl, rfl⟩

theorem sameKeys_hold {g' : ℕ} {b : Books} (hb : SameKeys (booksOf s w g') b) (hheld : w'.held = (w.hold g' b).held) :
    SameKeys (booksOf s w g) (booksOf s w' g) := by
  by_cases e : g = g'
  · subst e
    have hb' : booksOf s w' g = b := booksOf_held (by rw [hheld, lookup_hold])
    rwa [hb']
  · unfold booksOf
    rw [hheld, lookup_hold_ne e]
    exact ⟨rfl, rfl⟩

theorem sameKeys_close {g' : ℕ} {p : AdmissionLease → Bool} {stamp : AdmissionLease → AdmissionLease} {f : ℤ → ℤ} (hstamp : Stamps stamp) :
    SameKeys (booksOf s w g) (booksOf s (w.close g' (booksOf s w g') p stamp f) g) :=
  sameKeys_hold (b := ((booksOf s w g').close p stamp).setActive f) ⟨map_id_close hstamp, rfl⟩ rfl

theorem admit_keys (h : admitStep s others w pc = some (w', pc')) :
    SameKeys (booksOf s w g) (booksOf s w' g) ∨ ∃ a, pc = .book a ∧ a.r.grantId = g := by
  unfold admitStep refuse at h
  split at h
  case h_9 a =>
    split at h <;> cases h
    exact .inl (sameKeys_hold (b := (booksOf s w a.r.grantId).withCounter) ⟨rfl, rfl⟩ rfl)
  case h_12 a =>
    by_cases e : a.r.grantId = g
    · exact .inr ⟨a, rfl, e⟩
    · refine .inl ?_
      have hentered {w' : Work} (hheld : w'.held = (w.hold a.r.grantId (a.enter s.serial (booksOf s w a.r.grantId))).held) :
          SameKeys (booksOf s w g) (booksOf s w' g) := by
        unfold booksOf
        rw [hheld, lookup_hold_ne (Ne.symm e)]
        exact ⟨rfl, rfl⟩
      dsimp only at h
      (repeat' split at h) <;> cases h <;>
        first
        | exact sameKeys_of_held rfl
        | exact hentered rfl
  all_goals
    left
    try dsimp only at h
    (repeat' split at h) <;> cases h <;> exact sameKeys_of_held rfl

/-- Only the last statement of an admission enters rows, and into the books of its grant. -/
theorem exec_keys (h : exec s others w pc = some (w', pc')) :
    SameKeys (booksOf s w g) (booksOf s w' g) ∨ ∃ a, pc = .book a ∧ a.r.grantId = g := by
  unfold exec at h
  rcases Option.or_eq_some_iff.mp h with h | ⟨-, h⟩
  · exact admit_keys h
  left
  rcases Option.or_eq_some_iff.mp h with h | ⟨-, h⟩
  · unfold renewStep at h
    split at h <;> (repeat' split at h) <;> cases h <;> exact sameKeys_of_held rfl
  rcases Option.or_eq_some_iff.mp h with h | ⟨-, h⟩
  · unfold releaseStep at h
    split at h <;> (try dsimp only at h) <;> (repeat' split at h) <;> cases h <;>
      first
      | exact sameKeys_of_held rfl
      | exact sameKeys_hold ⟨rfl, rfl⟩ rfl
      | exact sameKeys_close (stamps_release _)
  rcases Option.or_eq_some_iff.mp h with h | ⟨-, h⟩
  · unfold reclaimStep at h
    split at h <;> (try dsimp only at h) <;> (repeat' split at h) <;> cases h <;>
      first
      | exact sameKeys_of_held rfl
      | exact sameKeys_close (stamps_reclaim _)
      | (refine sameKeys_hold ?_ rfl
         exact ⟨rfl, rfl⟩)
  · unfold stopStep selectStop writeStop at h
    split at h <;> (try dsimp only at h) <;> (repeat' split at h) <;> cases h <;> exact sameKeys_of_held rfl

/-- An admission reads its grant once, and gets past the stops if none is pending. -/
theorem exec_admission (h : exec s others w pc = some (w', pc')) {a : Admission} (ha : pc'.admission = some a) :
    (pc.admission = some a ∨ pc'.isLate = false ∧ ∃ account, s.accounts[a.r.grantId]? = some account ∧ a.grant = account.grant) ∧
      (pc'.isLate = true → pc.isLate = true ∨
        pc = .pending a ∧ a.grant.revokedAt = none ∧ ∀ key ∈ a.keys, NotPending s w key) := by
  have hnone (hno : pc'.admission = none) : False := by
    rw [hno] at ha
    cases ha
  unfold exec at h
  rcases Option.or_eq_some_iff.mp h with h | ⟨-, h⟩
  · unfold admitStep refuse at h
    split at h
    case h_2 r now user =>
      split at h
      · cases h
        cases ha
      · rename_i grant hgrant
        cases h
        cases ha
        obtain ⟨hmem, -⟩ := Option.filter_eq_some_iff.mp hgrant
        obtain ⟨account, hacc, rfl⟩ := Option.map_eq_some_iff.mp hmem
        exact ⟨.inr ⟨rfl, account, hacc, rfl⟩, fun hl => nomatch hl⟩
    case h_7 b =>
      split at h
      · cases h
        cases ha
      · rename_i hfree
        split at h
        · cases h
          cases ha
        · rename_i hrevoked
          split at h <;> cases h
          · cases ha
          · cases ha
            refine ⟨.inl rfl, fun _ => .inr ⟨rfl, by simpa using hrevoked, fun key hkey k hk => ?_⟩⟩
            have hnot := List.find?_eq_none.mp hfree key hkey
            simpa [hk] using hnot
    all_goals
      try dsimp only at h
      (repeat' split at h) <;> cases h <;> cases ha <;>
        exact ⟨.inl rfl, fun hl => by first | exact .inl rfl | cases hl⟩
  rcases Option.or_eq_some_iff.mp h with h | ⟨-, h⟩
  · exact (hnone (by unfold renewStep at h; split at h <;> (repeat' split at h) <;> cases h <;> rfl)).elim
  rcases Option.or_eq_some_iff.mp h with h | ⟨-, h⟩
  · exact (hnone (by unfold releaseStep at h; split at h <;> (try dsimp only at h) <;> (repeat' split at h) <;> cases h <;> rfl)).elim
  rcases Option.or_eq_some_iff.mp h with h | ⟨-, h⟩
  · exact (hnone (by unfold reclaimStep at h; split at h <;> (try dsimp only at h) <;> (repeat' split at h) <;> cases h <;> rfl)).elim
  · exact (hnone (by unfold stopStep selectStop writeStop at h; split at h <;> (try dsimp only at h) <;> (repeat' split at h) <;> cases h <;> rfl)).elim

end Statements

/-! ### Rows that are not committed -/

/-- Whoever has entered rows for a grant has a lock of its scope. -/
def Work.Marked (s : State) (w : Work) : Prop := ∀ g, Clean s w g ∨ ∃ shared, (LockKey.stop (.GRANT g), shared) ∈ w.locks

def Marked (s : State) : Prop := ∀ (k : ℕ) (t : Tx), s.txs[k]? = some t → t.work.Marked s ∧ t.saved.Marked s

section Marked

variable {s s' : State} {k g : ℕ} {t : Tx} {w w' : Work} {a : Action}

theorem clean_none : Clean s .none g := ⟨rfl, rfl⟩

theorem Clean.keys (h : Clean s w g) (hk : SameKeys (booksOf s w g) (booksOf s w' g)) : Clean s w' g :=
  ⟨hk.1.trans h.1, hk.2.trans h.2⟩

theorem Clean.congr (h : Clean s w g) (hbooks : ∀ w g, booksOf s' w g = booksOf s w g) : Clean s' w g := by
  unfold Clean
  rw [hbooks, hbooks]
  exact h

/-- A commit leaves the rows alone that another transaction holds. -/
theorem Clean.install (h : Clean s w g) (hs : Sound s) (hk : s.txs[k]? = some t) {j : ℕ} {u : Tx} (hj : s.txs[j]? = some u) (hne : j ≠ k)
    (hheld : ∀ g, (w.held.lookup g).isSome → (u.work.held.lookup g).isSome) : Clean (s.install t.work) w g := by
  have ht := (hs.txs k t hk).work
  unfold Clean
  rw [committed_install ht, booksOf_install ht]
  split
  · rename_i hg
    have hfree : t.work.held.lookup g = none := by
      by_contra hc
      exact hne (hs.alone j k u t g hj hk (hheld g hg) (Option.isSome_iff_ne_none.mpr hc))
    rw [booksOf_unheld hfree]
    exact h
  · exact ⟨rfl, rfl⟩

theorem Work.Marked.congr (h : w.Marked s) (hbooks : ∀ w g, booksOf s' w g = booksOf s w g) : w.Marked s' :=
  fun g => (h g).imp_left (·.congr hbooks)

theorem Work.Marked.none : Work.none.Marked s := fun _ => .inl clean_none

theorem Marked.setTx (h : Marked s) {t' : Tx} (hk : s.txs[k]? = some t) (hwork : t'.work.Marked s) (hsaved : t'.saved.Marked s) :
    Marked (s.setTx k t') := by
  intro j u hj
  rcases getElem?_set_cases hk hj with ⟨-, rfl⟩ | ⟨-, hj⟩
  · exact ⟨hwork.congr fun _ _ => rfl, hsaved.congr fun _ _ => rfl⟩
  · exact ⟨(h j u hj).1.congr fun _ _ => rfl, (h j u hj).2.congr fun _ _ => rfl⟩

theorem late_locked {pc : Pc} {b : Admission} (hpc : pc.Locked s w) (hb : pc.admission = some b) (hlate : pc.isLate = true) :
    (LockKey.stop (.GRANT b.r.grantId), true) ∈ w.locks := by
  have hkey : StopKey.GRANT b.r.grantId ∈ b.keys := by simp [Admission.keys, coveringKeys]
  cases pc <;> cases hlate <;> cases hb <;> exact hpc.1 _ (mem_admitLocks hkey)

theorem Marked.step (h : Marked s) (hs : Sound s) (hlocked : Locked s) (hstep : Safety.step s a s') : Marked s' := by
  cases step_happens hstep with
  | aside hbooks _ _ htxs _ =>
    exact fun j u hj => ⟨(h j u (htxs ▸ hj)).1.congr hbooks, (h j u (htxs ▸ hj)).2.congr hbooks⟩
  | connect =>
    intro j u hj
    rcases getElem?_concat_cases hj with rfl | hj
    · exact ⟨.none, .none⟩
    · exact ⟨(h j u hj).1.congr fun _ _ => rfl, (h j u hj).2.congr fun _ _ => rfl⟩
  | @call k t c hk => exact h.setTx hk (h k t hk).1 (h k t hk).1
  | @run k t pc pc' w hk hpc hexec =>
    have hpcl := hlocked.call k t pc hk hpc
    obtain ⟨htouch, -⟩ := exec_touch hpcl (fun x hx => hlocked.free hk ⟨x, hx⟩) hexec
    have hmarked : w.Marked s := by
      intro g
      rcases exec_keys (g := g) hexec with hkeys | ⟨b, rfl, rfl⟩
      · exact ((h k t hk).1 g).imp (·.keys hkeys) fun ⟨shared, hp⟩ => ⟨shared, htouch.locked.1 _ hp⟩
      · exact .inr ⟨true, htouch.locked.1 _ (late_locked hpcl rfl rfl)⟩
    have h' : Marked { s with serial := s.serial + 2 } := fun j u hj => ⟨(h j u hj).1.congr fun _ _ => rfl, (h j u hj).2.congr fun _ _ => rfl⟩
    exact h'.setTx (t := t) hk (hmarked.congr fun _ _ => rfl) ((h k t hk).2.congr fun _ _ => rfl)
  | @commit k t hk =>
    intro j u hj
    rcases getElem?_set_cases hk hj with ⟨-, rfl⟩ | ⟨hne, hj⟩
    · exact ⟨.none, .none⟩
    · refine ⟨fun g => ((h j u hj).1 g).imp_left fun hc => ?_, fun g => ((h j u hj).2 g).imp_left fun hc => ?_⟩
      · exact (hc.install hs hk hj hne fun _ hg => hg).congr fun _ _ => rfl
      · exact (hc.install hs hk hj hne fun g hg => hs.savedHeld j u g hj hg).congr fun _ _ => rfl
  | rollback hk => exact h.setTx hk .none .none
  | @rescue k t hk => exact h.setTx hk (h k t hk).2 (h k t hk).2

end Marked

/-! ### Grants that are revoked -/

/-- The transaction has entered nothing for the grant, and its admission, if it is at one, has yet to look for stops and will see
that the grant is revoked or find a stop. -/
structure Tx.Barred (s : State) (t : Tx) (g : ℕ) : Prop where
  work : Clean s t.work g
  saved : Clean s t.saved g
  call : ∀ pc b, t.call = some pc → pc.admission = some b → b.r.grantId = g →
    pc.isLate = false ∧ (b.grant.revokedAt.isSome = true ∨ (s.stop (.GRANT g)).isSome = true)

def Barred (s : State) (g : ℕ) : Prop := ∀ (k : ℕ) (t : Tx), s.txs[k]? = some t → t.Barred s g

section Barred

variable {s s' : State} {k g : ℕ} {t : Tx} {w : Work} {a : Action} {key : StopKey}

theorem Tx.Barred.idle : Tx.idle.Barred s g := ⟨clean_none, clean_none, fun _ _ hpc => (nomatch hpc)⟩

/-- What the transaction has seen is so in the new state. -/
theorem Tx.Barred.congr (h : t.Barred s g) (hbooks : ∀ w g, booksOf s' w g = booksOf s w g)
    (hstop : (s.stop (.GRANT g)).isSome = true → (s'.stop (.GRANT g)).isSome = true) : t.Barred s' g :=
  ⟨h.work.congr hbooks, h.saved.congr hbooks, fun pc b hpc hb hg => (h.call pc b hpc hb hg).imp_right (·.imp_right hstop)⟩

theorem Barred.setTx (h : Barred s g) {t' : Tx} (hk : s.txs[k]? = some t) (ht' : t'.Barred s g) : Barred (s.setTx k t') g := by
  intro j u hj
  rcases getElem?_set_cases hk hj with ⟨-, rfl⟩ | ⟨-, hj⟩
  · exact ht'.congr (fun _ _ => rfl) id
  · exact (h j u hj).congr (fun _ _ => rfl) id

theorem Barred.aside (h : Barred s g) (hbooks : ∀ w g, booksOf s' w g = booksOf s w g) (hstops : s'.stops = s.stops)
    (htxs : s'.txs = s.txs) : Barred s' g :=
  fun k t hk => (h k t (htxs ▸ hk)).congr hbooks fun hs => by rwa [State.stop, hstops]

theorem stopOf_isSome (h : (s.stop key).isSome = true) : (stopOf s w key).isSome = true := by
  rw [stopOf_stop, Option.isSome_or, h, Bool.or_true]

theorem start_admission (c : Call) (now : ℤ) : (c.start now).admission = none := by
  cases c <;> simp only [Call.start] <;> (try split) <;> rfl

/-- **Every action keeps a revoked grant barred**, if an admission that has read it before finds its stop pending. -/
theorem Barred.step (h : Barred s g) (hr : s.Revoked g) (hs : Sound s) (hstep : Safety.step s a s')
    (hstop : ∀ (k : ℕ) (t : Tx) b, a = .run k → s.txs[k]? = some t → t.call = some (.pending b) → b.r.grantId = g →
      b.grant.revokedAt.isSome = true ∨ ∀ x, stopOf s t.work (.GRANT g) = some x → x.state ≠ .STOPPED) : Barred s' g := by
  cases step_happens hstep with
  | aside hbooks hstops _ htxs _ => exact h.aside hbooks hstops htxs
  | connect =>
    intro j u hj
    rcases getElem?_concat_cases hj with rfl | hj
    · exact .idle
    · exact (h j u hj).congr (fun _ _ => rfl) id
  | @call k t c hk =>
    refine h.setTx hk ⟨(h k t hk).work, (h k t hk).work, fun pc b hpc hb => ?_⟩
    obtain rfl := Option.some.inj hpc
    rw [start_admission] at hb
    cases hb
  | @run k t pc pc' w hk hpc hexec =>
    have ht := h k t hk
    have hwork : Clean s w g := by
      rcases exec_keys (g := g) hexec with hkeys | ⟨b, rfl, hg⟩
      · exact ht.work.keys hkeys
      · exact nomatch (ht.call _ b hpc rfl hg).1
    have hnew : Tx.Barred s ⟨w, t.saved, some pc'⟩ g := by
      refine ⟨hwork, ht.saved, fun pc₁ b hpc₁ hb hg => ?_⟩
      obtain rfl := Option.some.inj hpc₁
      obtain ⟨hread, hlate⟩ := exec_admission hexec hb
      have hseen : b.grant.revokedAt.isSome = true ∨ (s.stop (.GRANT g)).isSome = true := by
        rcases hread with hsame | ⟨-, account, ha, hgrant⟩
        · exact (ht.call pc b hpc hsame hg).2
        · -- an admission that reads the grant now sees that it is revoked
          rw [hg] at ha
          rw [State.Revoked, ha] at hr
          exact .inl (hgrant ▸ hr)
      refine ⟨?_, hseen⟩
      by_contra hnot
      rcases hlate (by simpa using hnot) with hlater | ⟨rfl, hunrevoked, hfree⟩
      · rcases hread with hsame | ⟨hearly, -⟩
        · rw [(ht.call pc b hpc hsame hg).1] at hlater
          cases hlater
        · exact hnot hearly
      · -- its stop is there and pending, so the admission does not get past it
        have hunseen : ¬ b.grant.revokedAt.isSome = true := by simp [hunrevoked]
        obtain ⟨y, hy⟩ := Option.isSome_iff_exists.mp (stopOf_isSome (w := t.work) (hseen.resolve_left hunseen))
        have hkey : StopKey.GRANT g ∈ b.keys := by simp [Admission.keys, coveringKeys, hg]
        have hpending := hfree _ hkey y hy
        have hstate := (hstop k t b rfl hk hpc hg).resolve_left hunseen y hy
        rcases hst : y.state <;> simp [KillSwitchState.isPending, hst] at hpending hstate
    have h' : Barred { s with serial := s.serial + 2 } g := fun j u hj => (h j u hj).congr (fun _ _ => rfl) id
    exact h'.setTx (t := t) hk (hnew.congr (fun _ _ => rfl) id)
  | @commit k t hk =>
    intro j u hj
    rcases getElem?_set_cases hk hj with ⟨-, rfl⟩ | ⟨hne, hj⟩
    · exact .idle
    · have hu := h j u hj
      have hinstall : u.Barred (s.install t.work) g := ⟨hu.work.install hs hk hj hne fun _ hg => hg,
        hu.saved.install hs hk hj hne fun g hg => hs.savedHeld j u g hj hg,
        fun pc b hpc hb hg => (hu.call pc b hpc hb hg).imp_right (·.imp_right stopOf_isSome)⟩
      exact hinstall.congr (fun _ _ => rfl) id
  | rollback hk => exact h.setTx hk .idle
  | @rescue k t hk => exact h.setTx hk ⟨(h k t hk).saved, (h k t hk).saved, fun _ _ hpc => by cases hpc⟩

/-- No action takes a revocation back. -/
theorem State.Revoked.step (h : s.Revoked g) (hstep : Safety.step s a s') : s'.Revoked g := by
  obtain ⟨account, ha, hrevoked⟩ := (Option.any_eq_true _ _).mp h
  have hkept {account' : Account} (ha' : s'.accounts[g]? = some account') (hgrant : account'.grant.revokedAt = account.grant.revokedAt) :
      s'.Revoked g := by
    rw [State.Revoked, ha']
    simpa [hgrant] using hrevoked
  cases a with
  | tick ms | setOperators operators | createTarget userId classification | classify targetId classification
    | createScan userId targetId | connect =>
    cases hstep
    exact h
  | authorize grant =>
    simp only [Safety.step, next] at hstep
    split at hstep <;> cases hstep
    exact hkept ((List.getElem?_append_left (List.getElem?_eq_some_iff.mp ha).1).trans ha) rfl
  | revoke g' =>
    cases hstep
    have hmodify : (s.accounts.modify g' fun account =>
        { account with grant := { account.grant with revokedAt := account.grant.revokedAt.or (some s.clock) } })[g]? = _ :=
      List.getElem?_modify ..
    obtain ⟨r, hr⟩ := Option.isSome_iff_exists.mp hrevoked
    refine hkept (hmodify.trans (by rw [ha]; rfl)) ?_
    split
    · simp [hr]
    · rfl
  | call k c =>
    obtain ⟨t, -, hstep⟩ := Option.bind_eq_some_iff.mp hstep
    split at hstep <;> cases hstep
    exact h
  | run k =>
    obtain ⟨t, -, hstep⟩ := Option.bind_eq_some_iff.mp hstep
    obtain ⟨pc, -, hstep⟩ := Option.bind_eq_some_iff.mp hstep
    obtain ⟨⟨w, pc'⟩, -, hstep⟩ := Option.bind_eq_some_iff.mp hstep
    cases hstep
    exact h
  | commit k =>
    obtain ⟨t, -, hstep⟩ := Option.bind_eq_some_iff.mp hstep
    split at hstep <;> cases hstep
    exact hkept (getElem?_install.trans (congrArg (Option.map _) ha)) rfl
  | rollback k | rescue k =>
    obtain ⟨t, -, hstep⟩ := Option.bind_eq_some_iff.mp hstep
    cases hstep
    exact h

end Barred

/-! ### The stop of a revocation -/

/-- What the call of a revocation has come to. -/
def Pc.Revokes (w : Work) (g : ℕ) : Pc → Prop
  | .triggerAuthority key _ _ | .triggerLock key => key = .GRANT g
  | .triggerSelect key => key = .GRANT g ∧ (LockKey.stop (.GRANT g), false) ∈ w.locks
  | .triggered _ _ => (LockKey.stop (.GRANT g), false) ∈ w.locks ∧ w.HasStop (.GRANT g)
  | .raised => True
  | _ => False

/-- The revocation of a grant is at its call. -/
def State.Revokes (s : State) (p : ℕ × ℕ) : Prop := ∃ t pc, s.txs[p.1]? = some t ∧ t.call = some pc ∧ pc.Revokes t.work p.2

section Revoker

variable {s s' : State} {others : List Work} {w w' : Work} {pc pc' : Pc} {g k : ℕ} {t : Tx} {a : Action} {p : ℕ × ℕ}

theorem hasStop_held (k : KillSwitchState) : (w.holdStop k).HasStop k.key := hasStop_holdStop.mpr (.inl rfl)

theorem exec_revokes (hpc : pc.Revokes w g) (h : exec s others w pc = some (w', pc')) : pc'.Revokes w' g := by
  cases pc with
  | triggerAuthority key triggeredBy reason =>
    simp only [exec, admitStep, renewStep, releaseStep, reclaimStep, stopStep, Option.none_or] at h
    cases h
    split
    · exact hpc
    · trivial
  | triggerLock key =>
    obtain rfl : key = .GRANT g := hpc
    simp only [exec, admitStep, renewStep, releaseStep, reclaimStep, stopStep, Option.none_or] at h
    split at h <;> cases h
    exact ⟨rfl, List.mem_cons_self ..⟩
  | triggerSelect key =>
    obtain ⟨rfl, hlock⟩ := hpc
    simp only [exec, admitStep, renewStep, releaseStep, reclaimStep, stopStep, Option.none_or] at h
    unfold selectStop at h
    split at h
    · rcases hview : stopOf s w (.GRANT g) with _ | x
      · rw [hview] at h
        cases h
        exact ⟨hlock, hasStop_held ⟨.GRANT g, .REQUESTED, s.clock⟩⟩
      · rw [hview] at h
        have hkey : x.key = .GRANT g := by
          rw [stopOf] at hview
          simpa using List.find?_some hview
        dsimp only at h
        split at h
        · unfold writeStop at h
          split at h <;> cases h
          · exact ⟨hlock, hkey ▸ hasStop_held _⟩
          · trivial
        · cases h
          exact ⟨hlock, hkey ▸ hasStop_held x⟩
    · cases h
  | triggered created state | raised => simp [exec, admitStep, renewStep, releaseStep, reclaimStep, stopStep] at h
  | _ => exact hpc.elim

/-- A revocation stays one until its transaction is over. -/
theorem State.Revokes.step (h : s.Revokes p) (hstep : Safety.step s a s') (ha : a ≠ .commit p.1 ∧ a ≠ .rollback p.1 ∧ a ≠ .rescue p.1)
    (hcall : ∀ c, a ≠ .call p.1 c) : s'.Revokes p := by
  obtain ⟨t, pc, ht, hpc, hrevokes⟩ := h
  have hother {k : ℕ} {u : Tx} (hk : k ≠ p.1) : (s.setTx k u).txs[p.1]? = some t := by
    rw [State.setTx, List.getElem?_set_ne hk, ht]
  cases step_happens hstep with
  | aside _ _ _ htxs _ => exact ⟨t, pc, htxs ▸ ht, hpc, hrevokes⟩
  | connect => exact ⟨t, pc, (List.getElem?_append_left (List.getElem?_eq_some_iff.mp ht).1).trans ht, hpc, hrevokes⟩
  | @call k u c hk => exact ⟨t, pc, hother fun e => hcall c (e ▸ rfl), hpc, hrevokes⟩
  | @run k u pc₁ pc' w hk hpc₁ hexec =>
    by_cases e : k = p.1
    · subst e
      obtain rfl := Option.some.inj (ht.symm.trans hk)
      obtain rfl := Option.some.inj (hpc.symm.trans hpc₁)
      exact ⟨_, pc', List.getElem?_set_self (List.getElem?_eq_some_iff.mp ht).1, rfl, exec_revokes hrevokes hexec⟩
    · exact ⟨t, pc, (List.getElem?_set_ne e).trans ht, hpc, hrevokes⟩
  | @commit k u hk =>
    have hne : k ≠ p.1 := fun e => ha.1 (e ▸ rfl)
    exact ⟨t, pc, (List.getElem?_set_ne hne).trans ht, hpc, hrevokes⟩
  | @rollback k u hk => exact ⟨t, pc, hother fun e => ha.2.1 (e ▸ rfl), hpc, hrevokes⟩
  | @rescue k u hk => exact ⟨t, pc, hother fun e => ha.2.2 (e ▸ rfl), hpc, hrevokes⟩

/-- **When a revocation commits its grant is barred**: whoever has entered rows for it, or got past the stops, has a lock that the
revocation has alone. -/
theorem barred_commit (hs : Sound s) (hlocked : Locked s) (hmarked : Marked s) (hk : s.txs[k]? = some t)
    (hlock : (LockKey.stop (.GRANT g), false) ∈ t.work.locks) (hstop : t.work.HasStop (.GRANT g)) :
    Barred ((s.install t.work).setTx k .idle) g := by
  intro j u hj
  rcases getElem?_set_cases hk hj with ⟨-, rfl⟩ | ⟨hne, hj⟩
  · exact .idle
  obtain ⟨hwork, hsaved⟩ := hmarked j u hj
  have hfree {shared : Bool} : (LockKey.stop (.GRANT g), shared) ∉ u.work.locks := fun hp =>
    hlocked.excluded k j t u _ _ (Ne.symm hne) hk hj hlock hp rfl
  have hinstall : u.Barred (s.install t.work) g := by
    refine ⟨?_, ?_, fun pc b hpc hb hg => ⟨?_, .inr ?_⟩⟩
    · exact ((hwork g).resolve_right fun ⟨_, hp⟩ => hfree hp).install hs hk hj hne fun _ hg => hg
    · exact ((hsaved g).resolve_right fun ⟨_, hp⟩ => hfree (hlocked.savedLocks j u _ hj hp)).install hs hk hj hne
        fun g hg => hs.savedHeld j u g hj hg
    · by_contra hlate
      have hp := late_locked (hlocked.call j u pc hj hpc) hb (by simpa using hlate)
      rw [hg] at hp
      exact hfree hp
    · obtain ⟨x, hx⟩ := hstop
      have hview : (s.install t.work).stop (.GRANT g) = stopOf s t.work (.GRANT g) := rfl
      rw [hview, stopOf_stop, hx]
      rfl
  exact hinstall.congr (fun _ _ => rfl) id

end Revoker

/-! ### Every run -/

/-- What is so in every run that is orderly. -/
structure Effective (s : Revoking) : Prop where
  sound : Sound s.f07
  locked : Locked s.f07
  marked : Marked s.f07
  revokes : ∀ p ∈ s.updates, s.f07.Revokes p
  barred : ∀ g, s.f07.Revoked g → Barred s.f07 g

section Effective

variable {s s' : Revoking} {a : RevokingAction} {f f' : State} {k g : ℕ}

theorem mem_of_grantOf (h : s.grantOf k = some g) : (k, g) ∈ s.updates := by
  obtain ⟨p, hp, rfl⟩ := Option.map_eq_some_iff.mp h
  have hk : p.1 = k := by simpa using List.find?_some hp
  exact hk ▸ List.mem_of_find?_eq_some hp

theorem not_mem_of_grantOf (h : s.grantOf k = none) {p : ℕ × ℕ} (hp : p ∈ s.updates) : p.1 ≠ k := by
  have hnone := List.find?_eq_none.mp (Option.map_eq_none_iff.mp h) p hp
  simpa using hnone

/-- A grant is revoked that was not. -/
theorem revoked_revoke (h : next f (.revoke g) = some f') {g' : ℕ} (hr : f'.Revoked g') : f.Revoked g' ∨ g' = g := by
  cases h
  by_cases e : g' = g
  · exact .inr e
  · refine .inl ?_
    unfold State.Revoked at hr ⊢
    simpa [List.getElem?_modify, Ne.symm e] using hr

/-- Other actions revoke nothing. -/
theorem revoked_step {b : Action} (h : Safety.step f b f') (hb : ∀ g, b ≠ .revoke g) (hr : f'.Revoked g) : f.Revoked g := by
  have hsame (ha : f'.accounts = f.accounts) : f.Revoked g := by
    unfold State.Revoked at hr ⊢
    rwa [ha] at hr
  cases b with
  | tick ms | setOperators operators | createTarget userId classification | classify targetId classification
    | createScan userId targetId | connect =>
    cases h
    exact hsame rfl
  | authorize grant =>
    simp only [Safety.step, next] at h
    split at h <;> cases h
    unfold State.Revoked at hr ⊢
    dsimp only at hr
    rcases Nat.lt_trichotomy g f.accounts.length with hg | rfl | hg
    · rwa [List.getElem?_append_left hg] at hr
    · simp at hr
    · rw [List.getElem?_eq_none (by simpa using Nat.succ_le_of_lt hg)] at hr
      cases hr
  | revoke g' => exact absurd rfl (hb g')
  | call k c =>
    obtain ⟨t, -, h⟩ := Option.bind_eq_some_iff.mp h
    split at h <;> cases h
    exact hsame rfl
  | run k =>
    obtain ⟨t, -, h⟩ := Option.bind_eq_some_iff.mp h
    obtain ⟨pc, -, h⟩ := Option.bind_eq_some_iff.mp h
    obtain ⟨⟨w, pc'⟩, -, h⟩ := Option.bind_eq_some_iff.mp h
    cases h
    exact hsame rfl
  | commit k =>
    obtain ⟨t, -, h⟩ := Option.bind_eq_some_iff.mp h
    split at h <;> cases h
    unfold State.Revoked at hr ⊢
    rw [show ((f.install t.work).setTx k .idle).accounts = (f.install t.work).accounts from rfl, getElem?_install, Option.any_map] at hr
    exact hr
  | rollback k | rescue k =>
    obtain ⟨t, -, h⟩ := Option.bind_eq_some_iff.mp h
    cases h
    exact hsame rfl

/-- What a step of the safety functions that is not a revocation's commit keeps. -/
theorem Effective.base {b : Action} (h : Effective s) (hstep : Safety.step s.f07 b f') (hb : ∀ g, b ≠ .revoke g)
    (horderly : orderly s (.f07 b) = true) : (Sound f' ∧ Locked f' ∧ Marked f') ∧ ∀ g, f'.Revoked g → Barred f' g := by
  refine ⟨⟨h.sound.step hstep, h.locked.step hstep, h.marked.step h.sound h.locked hstep⟩, fun g hr => ?_⟩
  have hold := revoked_step hstep hb hr
  refine (h.barred g hold).step hold h.sound hstep fun k t b hrun hk hpc hg => ?_
  subst hrun
  subst hg
  simp only [orderly, hk, hpc, Option.all_some, hold, decide_true, Bool.not_true, Bool.or_false, Bool.or_eq_true,
    Bool.not_eq_true', Option.any_eq_false] at horderly
  exact horderly.imp_right fun hall x hx => by simpa using hall x hx

/-- The invariant of steps that leave the revocations under way as they are. -/
theorem Effective.keep {b : Action} (h : Effective s) (hstep : Safety.step s.f07 b f') (hb : ∀ g, b ≠ .revoke g)
    (horderly : orderly s (.f07 b) = true) (hu : ∀ p ∈ s.updates, f'.Revokes p) : Effective { s with f07 := f' } := by
  obtain ⟨⟨hs, hl, hm⟩, hbarred⟩ := h.base hstep hb horderly
  exact ⟨hs, hl, hm, hu, hbarred⟩

theorem Effective.step (h : Effective s) (hstep : orderlyStep s a s') : Effective s' := by
  obtain ⟨hstep, horderly⟩ := hstep
  cases a with
  | f07 b =>
    cases b with
    | revoke g => cases hstep
    | tick ms | setOperators operators | createTarget userId classification | classify targetId classification
      | createScan userId targetId | authorize grant | connect | run k =>
      simp only [revokingStep, revokingNext] at hstep
      obtain ⟨f', hnext, rfl⟩ := Option.map_eq_some_iff.mp hstep
      exact h.keep hnext nofun horderly fun p hp => (h.revokes p hp).step hnext (by simp) (by simp)
    | call k c =>
      simp only [revokingStep, revokingNext] at hstep
      split at hstep
      · cases hstep
      · rename_i hnone
        obtain ⟨f', hnext, rfl⟩ := Option.map_eq_some_iff.mp hstep
        have hne {p : ℕ × ℕ} (hp : p ∈ s.updates) : p.1 ≠ k := not_mem_of_grantOf (by simpa using hnone) hp
        exact h.keep hnext nofun horderly fun p hp => (h.revokes p hp).step hnext (by simp) fun c' e => hne hp (by cases e; rfl)
    | rescue k =>
      simp only [revokingStep, revokingNext] at hstep
      split at hstep
      · cases hstep
      · rename_i hnone
        obtain ⟨f', hnext, rfl⟩ := Option.map_eq_some_iff.mp hstep
        have hne {p : ℕ × ℕ} (hp : p ∈ s.updates) : p.1 ≠ k := not_mem_of_grantOf (by simpa using hnone) hp
        exact h.keep hnext nofun horderly fun p hp => (h.revokes p hp).step hnext ⟨nofun, nofun, fun e => hne hp (by cases e; rfl)⟩ nofun
    | rollback k =>
      simp only [revokingStep, revokingNext] at hstep
      obtain ⟨f', hnext, rfl⟩ := Option.map_eq_some_iff.mp hstep
      obtain ⟨⟨hs, hl, hm⟩, hbarred⟩ := h.base hnext nofun horderly
      refine ⟨hs, hl, hm, fun p hp => ?_, hbarred⟩
      obtain ⟨hmem, hne⟩ := List.mem_filter.mp hp
      exact (h.revokes p hmem).step hnext ⟨nofun, fun e => by cases e; simp at hne, nofun⟩ nofun
    | commit k =>
      simp only [revokingStep, revokingNext] at hstep
      split at hstep
      · rename_i hnone
        obtain ⟨f', hnext, rfl⟩ := Option.map_eq_some_iff.mp hstep
        exact h.keep hnext nofun horderly fun p hp =>
          (h.revokes p hp).step hnext ⟨fun e => not_mem_of_grantOf hnone hp (by cases e; rfl), nofun, nofun⟩ nofun
      · rename_i g hgrant
        obtain ⟨t, hk, hstep⟩ := Option.bind_eq_some_iff.mp hstep
        split at hstep
        · rename_i created state hcall
          obtain ⟨f₁, hcommit, hstep⟩ := Option.bind_eq_some_iff.mp hstep
          obtain ⟨f₂, hrevoke, hstep⟩ := Option.bind_eq_some_iff.mp hstep
          cases hstep
          obtain ⟨⟨hs, hl, hm⟩, hbarred⟩ := h.base hcommit nofun horderly
          have haside : (∀ w g, booksOf f₂ w g = booksOf f₁ w g) ∧ f₂.stops = f₁.stops ∧ f₂.txs = f₁.txs := by
            cases step_happens hrevoke with
            | aside hbooks hstops _ htxs _ => exact ⟨hbooks, hstops, htxs⟩
          -- the revocation has the lock of its scope, and a stop
          have hnew : Barred f₁ g := by
            obtain ⟨u, pc, hu, hpc, hrevokes⟩ := h.revokes _ (mem_of_grantOf hgrant)
            obtain rfl := Option.some.inj (hk.symm.trans hu)
            obtain rfl := Option.some.inj (hcall.symm.trans hpc)
            obtain ⟨u, hu, hcommit⟩ := Option.bind_eq_some_iff.mp hcommit
            obtain rfl := Option.some.inj (hk.symm.trans hu)
            split at hcommit <;> cases hcommit
            exact barred_commit h.sound h.locked h.marked hk hrevokes.1 hrevokes.2
          refine ⟨hs.step hrevoke, hl.step hrevoke, hm.step hs hl hrevoke, fun p hp => ?_, fun g' hr => ?_⟩
          · obtain ⟨hmem, hne⟩ := List.mem_filter.mp hp
            have hkept := (h.revokes p hmem).step hcommit ⟨fun e => by cases e; simp at hne, nofun, nofun⟩ nofun
            exact hkept.step hrevoke ⟨nofun, nofun, nofun⟩ nofun
          · rcases revoked_revoke hrevoke hr with hold | rfl
            · exact (hbarred g' hold).aside haside.1 haside.2.1 haside.2.2
            · exact hnew.aside haside.1 haside.2.1 haside.2.2
        · cases hstep
  | revokeAuthorization k g =>
    obtain ⟨grant, -, hstep⟩ := Option.bind_eq_some_iff.mp hstep
    split at hstep
    · rename_i hidle
      obtain ⟨f', hnext, rfl⟩ := Option.map_eq_some_iff.mp hstep
      obtain ⟨⟨hs, hl, hm⟩, hbarred⟩ := h.base hnext nofun rfl
      refine ⟨hs, hl, hm, fun p hp => ?_, hbarred⟩
      rcases List.mem_cons.mp hp with rfl | hp
      · obtain ⟨t, hk, hnext⟩ := Option.bind_eq_some_iff.mp hnext
        split at hnext <;> cases hnext
        refine ⟨_, _, List.getElem?_set_self (List.getElem?_eq_some_iff.mp hk).1, rfl, ?_⟩
        exact rfl
      · exact (h.revokes p hp).step hnext ⟨nofun, nofun, nofun⟩ fun c e => not_mem_of_grantOf hidle.2 hp (by cases e; rfl)
    · cases hstep
  | narrowAuthorization g budgets =>
    obtain ⟨grant, -, hstep⟩ := Option.bind_eq_some_iff.mp hstep
    obtain ⟨f₁, hrevoke, hstep⟩ := Option.bind_eq_some_iff.mp hstep
    obtain ⟨f₂, hauthorize, rfl⟩ := Option.map_eq_some_iff.mp hstep
    have haside {f f' : State} {b : Action} (hb : b = .revoke g ∨ b = .authorize (grant.narrowed budgets)) (hstep : Safety.step f b f') :
        (∀ w g, booksOf f' w g = booksOf f w g) ∧ f'.stops = f.stops ∧ f'.txs = f.txs := by
      cases step_happens hstep with
      | aside hbooks hstops _ htxs _ => exact ⟨hbooks, hstops, htxs⟩
      | _ => rcases hb with hb | hb <;> cases hb
    obtain ⟨hbooks₁, hstops₁, htxs₁⟩ := haside (.inl rfl) hrevoke
    obtain ⟨hbooks₂, hstops₂, htxs₂⟩ := haside (.inr rfl) hauthorize
    have hbarred {g' : ℕ} (hg : Barred s.f07 g') : Barred f₂ g' := (hg.aside hbooks₁ hstops₁ htxs₁).aside hbooks₂ hstops₂ htxs₂
    have hs := h.sound.step hrevoke
    have hl := h.locked.step hrevoke
    have hm := h.marked.step h.sound h.locked hrevoke
    refine ⟨hs.step hauthorize, hl.step hauthorize, hm.step hs hl hauthorize, fun p hp => ?_, fun g' hr => ?_⟩
    · exact ((h.revokes p hp).step hrevoke ⟨nofun, nofun, nofun⟩ nofun).step hauthorize ⟨nofun, nofun, nofun⟩ nofun
    · rcases revoked_revoke hrevoke (revoked_step hauthorize nofun hr) with hold | rfl
      · exact hbarred (h.barred g' hold)
      · -- nobody has read the grant
        refine hbarred fun k t hk => ?_
        have ht := List.all_eq_true.mp horderly t (List.mem_of_getElem? hk)
        simp only [Bool.and_eq_true, decide_eq_true_eq] at ht
        refine ⟨ht.1.2, ht.2, fun pc b hpc hb hg => ?_⟩
        have hnone := ht.1.1
        simp [hpc, hb, hg] at hnone

theorem effective_init : Effective .init where
  sound := sound_init
  locked := locked_init
  marked := fun _ _ hk => nomatch hk
  revokes := fun _ hp => nomatch hp
  barred := fun _ hr => nomatch hr

/-- A step of the safety functions, or two of them. -/
theorem revoking_f07 (hstep : revokingStep s a s') : ∃ b f', Safety.step s.f07 b f' ∧ (s'.f07 = f' ∨ ∃ c, Safety.step f' c s'.f07) := by
  cases a with
  | f07 b =>
    cases b with
    | revoke g => cases hstep
    | commit k =>
      simp only [revokingStep, revokingNext] at hstep
      split at hstep
      · obtain ⟨f', hnext, rfl⟩ := Option.map_eq_some_iff.mp hstep
        exact ⟨_, f', hnext, .inl rfl⟩
      · obtain ⟨t, -, hstep⟩ := Option.bind_eq_some_iff.mp hstep
        split at hstep
        · obtain ⟨f₁, hcommit, hstep⟩ := Option.bind_eq_some_iff.mp hstep
          obtain ⟨f₂, hrevoke, hstep⟩ := Option.bind_eq_some_iff.mp hstep
          cases hstep
          exact ⟨_, f₁, hcommit, .inr ⟨_, hrevoke⟩⟩
        · cases hstep
    | call k c | rescue k =>
      simp only [revokingStep, revokingNext] at hstep
      split at hstep
      · cases hstep
      · obtain ⟨f', hnext, rfl⟩ := Option.map_eq_some_iff.mp hstep
        exact ⟨_, f', hnext, .inl rfl⟩
    | _ =>
      simp only [revokingStep, revokingNext] at hstep
      obtain ⟨f', hnext, rfl⟩ := Option.map_eq_some_iff.mp hstep
      exact ⟨_, f', hnext, .inl rfl⟩
  | revokeAuthorization k g =>
    obtain ⟨grant, -, hstep⟩ := Option.bind_eq_some_iff.mp hstep
    split at hstep
    · obtain ⟨f', hnext, rfl⟩ := Option.map_eq_some_iff.mp hstep
      exact ⟨_, f', hnext, .inl rfl⟩
    · cases hstep
  | narrowAuthorization g budgets =>
    obtain ⟨grant, -, hstep⟩ := Option.bind_eq_some_iff.mp hstep
    obtain ⟨f₁, hrevoke, hstep⟩ := Option.bind_eq_some_iff.mp hstep
    obtain ⟨f₂, hauthorize, rfl⟩ := Option.map_eq_some_iff.mp hstep
    exact ⟨_, f₁, hrevoke, .inr ⟨_, hauthorize⟩⟩

/-- A commit makes of the books of a grant what the transaction has made of them. -/
theorem commit_keys (hs : Sound s.f07) (hbarred : Barred s.f07 g) (hstep : revokingStep s (.f07 (.commit k)) s') :
    SameKeys (booksOf s.f07 .none g) (booksOf s'.f07 .none g) := by
  have hcommitted {f : State} (hcommit : Safety.step s.f07 (.commit k) f) : SameKeys (booksOf s.f07 .none g) (booksOf f .none g) := by
    obtain ⟨t, hk, hcommit⟩ := Option.bind_eq_some_iff.mp hcommit
    split at hcommit <;> cases hcommit
    rw [show booksOf ((s.f07.install t.work).setTx k .idle) .none g = booksOf s.f07 t.work g from committed_install (hs.txs k t hk).work]
    exact (hbarred k t hk).work
  simp only [revokingStep, revokingNext] at hstep
  split at hstep
  · obtain ⟨f', hnext, rfl⟩ := Option.map_eq_some_iff.mp hstep
    exact hcommitted hnext
  · obtain ⟨t, -, hstep⟩ := Option.bind_eq_some_iff.mp hstep
    split at hstep
    · obtain ⟨f₁, hcommit, hstep⟩ := Option.bind_eq_some_iff.mp hstep
      obtain ⟨f₂, hrevoke, hstep⟩ := Option.bind_eq_some_iff.mp hstep
      cases hstep
      cases step_happens hrevoke with
      | aside hbooks _ _ _ _ =>
        rw [show booksOf (s.drop f₂ k).f07 .none g = booksOf f₁ .none g from hbooks _ _]
        exact hcommitted hcommit
    · cases hstep

/-- **Revocation is effective** in runs in which grants are replaced only when no admission is at them, and in which none that has
read a grant before finds its stop stopped: no admission under a revoked grant is granted or commits. -/
theorem revocation_effective {s s' : Revoking} {g : ℕ} (h : Reaches orderlyStep .init s) (hr : s.f07.Revoked g)
    (h' : Reaches orderlyStep s s') :
    (∀ k s'', revokingStep s' (.f07 (.commit k)) s'' → SameKeys (booksOf s'.f07 .none g) (booksOf s''.f07 .none g)) ∧
    ∀ (k : ℕ) (t : Tx) pc w r now leaseId token replay, s'.f07.txs[k]? = some t → t.call = some pc →
      exec s'.f07 (s'.f07.others k) t.work pc = some (w, .admitted r now (.granted leaseId token replay)) → r.grantId ≠ g := by
  have heffective : Effective s' := Reaches.inv (Relation.ReflTransGen.trans h h') effective_init fun _ _ _ => Effective.step
  have hrevoked : s'.f07.Revoked g := by
    refine h'.inv (I := fun u => u.f07.Revoked g) hr fun u a u' hu hstep => ?_
    obtain ⟨b, f, hb, hsame | ⟨c, hc⟩⟩ := revoking_f07 hstep.1
    · exact hsame ▸ hu.step hb
    · exact (hu.step hb).step hc
  have hbarred := heffective.barred g hrevoked
  refine ⟨fun k s'' hstep => commit_keys heffective.sound hbarred hstep, fun k t pc w r now leaseId token replay hk hpc hexec hg => ?_⟩
  -- an admission that is granted has looked for stops
  obtain ⟨b, hor, rfl, -⟩ := granted_behind (heffective.locked.call k t pc hk hpc) hexec
  rcases hor with rfl | rfl
  · exact nomatch ((hbarred k t hk).call _ b hpc rfl hg).1
  · exact nomatch ((hbarred k t hk).call _ b hpc rfl hg).1

/-- An admission has read a grant, the grant is revoked, and the admission goes on. -/
def revokedMeanwhile : List RevokingAction :=
  [.f07 (.createTarget 7 (some .STAGING)), .f07 (.authorize ⟨0, 7, [.STAGING], 2, 1, 1000000, none⟩), .f07 .connect, .f07 .connect,
    .f07 (.call 0 (.admission firstRequest)), .f07 (.run 0), .f07 (.run 0), .revokeAuthorization 1 0, .f07 (.run 1), .f07 (.run 1),
    .f07 (.run 1), .f07 (.commit 1)]

theorem revocation_effective_meanwhile : ∃ s s', Reaches orderlyStep .init s ∧ s.f07.Revoked 0 ∧
    (s'.f07.txs[0]?).map (·.call) = some (some (.admitted firstRequest 0 (.refused (.KILL_SWITCH_PENDING (.GRANT 0))))) ∧
    ∀ k s'', revokingStep s' (.f07 (.commit k)) s'' → SameKeys (booksOf s'.f07 .none 0) (booksOf s''.f07 .none 0) := by
  obtain ⟨s, hs, hrevoked, hthen⟩ := Reaches.exists_of_play revokingNext orderly .init revokedMeanwhile
    (fun s => s.f07.Revoked 0 ∧
      ((List.replicate 10 (.f07 (.run 0))).foldlM (fun u a => if orderly u a then revokingNext u a else none) s).any (fun s' =>
        decide ((s'.f07.txs[0]?).map (fun t : Tx => t.call) =
          some (some (Pc.admitted firstRequest 0 (.refused (.KILL_SWITCH_PENDING (.GRANT 0))))))) = true) (by decide)
  obtain ⟨s', hs', hrefused⟩ := (Option.any_eq_true _ _).mp hthen
  exact ⟨s, s', hs, hrevoked, by simpa using hrefused,
    (revocation_effective hs hrevoked (Reaches.of_play revokingNext orderly _ hs')).1⟩

/-- An admission has read a grant, and the grant is replaced by a narrower one. The admission goes on and commits. -/
theorem admitted_after_revocation : ¬ ∀ s s' k g, Reaches revokingStep .init s → s.f07.Revoked g →
    revokingStep s (.f07 (.commit k)) s' → SameKeys (booksOf s.f07 .none g) (booksOf s'.f07 .none g) := by
  intro hall
  obtain ⟨s, hs, hrevoked, hnext⟩ := Reaches.exists_of_play revokingNext (fun _ _ => true) .init
    ([.f07 (.createTarget 7 (some .STAGING)), .f07 (.authorize ⟨0, 7, [.STAGING], 2, 1, 1000000, none⟩), .f07 .connect,
      .f07 (.call 0 (.admission firstRequest)), .f07 (.run 0), .f07 (.run 0), .narrowAuthorization 0 ⟨1, 1, 1000⟩] ++
      List.replicate 15 (.f07 (.run 0)))
    (fun s => s.f07.Revoked 0 ∧ (revokingNext s (.f07 (.commit 0))).any (fun s' =>
      decide (¬ SameKeys (booksOf s.f07 .none 0) (booksOf s'.f07 .none 0))) = true) (by decide)
  obtain ⟨s', hs', hdiff⟩ := (Option.any_eq_true _ _).mp hnext
  exact of_decide_eq_true hdiff (hall s s' 0 0 hs.of_guarded hrevoked hs')

end Effective

end WebAudit.Safety
