import WebAudit.Safety.Accounting

/-!
# What a granted admission holds

An admission that is granted, and is no replay, has entered a lease of its own, and the lease is
there when it commits; so is the lease that a renewal has renewed (`Promised`). A replay has entered
nothing: it answers with what was stored under its key, whatever has become of it since.

The checkpoint that engines call goes by these answers: `services/safety/admission.ts` and
`checkpoint.ts`.
-/

namespace WebAudit.Safety

open WebAudit.Lib

/-! ### What a call has done -/

/-- No lease and no consumption row has been added or changed, and nothing is counted. -/
def SameRows (b b' : Books) : Prop :=
  (b'.leases = b.leases ∧ b'.consumptions = b.consumptions) ∧
    b'.activeConcurrency = b.activeConcurrency ∧ b'.consumedRequests = b.consumedRequests

theorem SameRows.refl (b : Books) : SameRows b b := ⟨⟨rfl, rfl⟩, rfl, rfl⟩

theorem SameRows.withCounter (b : Books) : SameRows b b.withCounter :=
  ⟨⟨rfl, rfl⟩, activeConcurrency_withCounter, consumedRequests_withCounter⟩

/-- The lease that an admission was granted is in the books that its transaction holds. -/
def Work.HasLease (w : Work) (r : AdmitRequest) (now : ℤ) (leaseId token : Option ℕ) : Prop :=
  ∃ b, w.held.lookup r.grantId = some b ∧ ∃ l ∈ b.leases, leaseId = some l.id ∧ token = some l.holderToken ∧ l.isOpen = true ∧
    l.executionId = r.executionId ∧ w.expiries.lookup l.id = some (now + leaseMs)

/-- The answer of a replay is what is stored under the key. -/
def Books.Stored (b : Books) (key : String) (leaseId token : Option ℕ) : Prop :=
  (∃ l ∈ b.leases, l.idempotencyKey = key ∧ leaseId = some l.id ∧ token = some l.holderToken) ∨
    leaseId = none ∧ token = none ∧ (∀ l ∈ b.leases, l.idempotencyKey ≠ key) ∧ ∃ c ∈ b.consumptions, c.idempotencyKey = key

/-- The counter row is locked, and nothing else has been done by the call. -/
structure Untouched (s : State) (w saved : Work) (g : ℕ) : Prop where
  books : ∃ b, w.held.lookup g = some b ∧ SameRows (booksOf s saved g) b
  elsewhere : ∀ g', g' ≠ g → w.held.lookup g' = saved.held.lookup g'

/-- The lease is open, its row is the transaction's, and it runs to `e`. -/
def Work.HasRenewed (s : State) (w : Work) (x : Renewal) (e : ℤ) : Prop :=
  e = x.now + leaseMs ∧ w.expiries.lookup x.lease.id = some e ∧ x.lease.id ∈ w.rows ∧
    ∃ l ∈ (booksOf s w x.grantId).leases, l.id = x.lease.id ∧ l.holderToken = x.lease.holderToken ∧ l.isOpen = true

/-- What a call has done when it is at a statement. -/
def Pc.Promised (s : State) (w saved : Work) : Pc → Prop
  | .target .. | .grant .. | .scan _ | .tenant _ | .lock .. | .pending _ | .environment _ | .counter _ => w.held = saved.held
  | .replay a | .leased a | .book a => Untouched s w saved a.r.grantId
  | .admitted r now (.granted leaseId token false) => r.consumeConcurrency = true → w.HasLease r now leaseId token
  | .admitted r _ (.granted leaseId token true) =>
    Untouched s w saved r.grantId ∧ (booksOf s w r.grantId).Stored r.idempotencyKey leaseId token
  | .renewed (some x) (.renewed e) => w.HasRenewed s x e
  | _ => True

section Statements

variable {s : State} {others : List Work} {w w' saved : Work} {pc pc' : Pc}

theorem admit_promised (hpc : pc.Promised s w saved) (h : admitStep s others w pc = some (w', pc')) :
    pc'.Promised s w' saved := by
  unfold admitStep at h
  split at h
  · split at h <;> cases h
    · exact trivial
    · exact hpc
  · split at h <;> cases h
    · exact trivial
    · exact hpc
  · split at h <;> cases h
    · exact hpc
    · exact trivial
  · split at h <;> cases h
    · exact trivial
    · exact hpc
  · cases h
    exact hpc
  · split at h <;> cases h
    exact hpc
  · split at h
    · cases h
      exact trivial
    · split at h
      · cases h
        exact trivial
      · split at h <;> cases h
        · exact trivial
        · exact hpc
  · split at h
    · split at h <;> cases h
      · exact hpc
      · exact trivial
    · cases h
      exact trivial
  · -- the counter row is locked: the books are as before the call
    rename_i a
    split at h <;> cases h
    have hbooks : booksOf s w a.r.grantId = booksOf s saved a.r.grantId := by
      unfold booksOf
      rw [show w.held = saved.held from hpc]
    refine ⟨⟨_, lookup_hold, by rw [hbooks]; exact .withCounter _⟩, fun g' hne => ?_⟩
    rw [lookup_hold_ne hne, show w.held = saved.held from hpc]
  · rename_i a
    dsimp only at h
    split at h
    · rename_i l hl
      cases h
      have hkey : l.idempotencyKey = a.r.idempotencyKey := by simpa using List.find?_some hl
      exact ⟨hpc, .inl ⟨l, List.mem_of_find?_eq_some hl, hkey, rfl, rfl⟩⟩
    · rename_i hnone
      split at h <;> cases h
      · rename_i hany
        obtain ⟨c, hc, hkey⟩ := List.any_eq_true.mp hany
        refine ⟨hpc, .inr ⟨rfl, rfl, fun l hl => ?_, c, hc, by simpa using hkey⟩⟩
        simpa using List.find?_eq_none.mp hnone l hl
      · exact hpc
  · split at h <;> cases h
    · exact trivial
    · exact hpc
  · rename_i a
    dsimp only at h
    split at h
    · cases h
      exact trivial
    split at h
    · cases h
      exact trivial
    split at h <;> cases h
    · rename_i hn
      refine fun _ => ⟨_, lookup_hold, a.lease s.serial, ?_, rfl, rfl, rfl, rfl, ?_⟩
      · simp [Admission.enter, hn]
      · simp [Work.setExpiry, Admission.lease]
    · rename_i hn
      exact fun hc => absurd hc hn
  · cases h

theorem renew_promised (h : renewStep s others w pc = some (w', pc')) : pc'.Promised s w' saved := by
  unfold renewStep at h
  split at h
  · split at h
    · cases h
      exact trivial
    · split at h <;> cases h <;> exact trivial
  · split at h <;> cases h <;> exact trivial
  · split at h
    · cases h
      exact trivial
    · split at h
      · cases h
        exact trivial
      · split at h <;> cases h <;> exact trivial
  · split at h
    · split at h
      · rename_i x _ hlive
        cases h
        obtain ⟨l, hl, hp⟩ := List.any_eq_true.mp hlive
        simp only [isLive, Bool.and_eq_true, decide_eq_true_eq] at hp
        exact ⟨rfl, by simp [Work.setExpiry], List.mem_cons_self .., l, hl, hp.1.1, hp.1.2, hp.2.1⟩
      · cases h
        exact trivial
    · cases h
  · cases h

/-- The other calls promise nothing. -/
theorem release_promised (h : releaseStep s others w pc = some (w', pc')) : pc'.Promised s w' saved := by
  unfold releaseStep at h
  split at h <;> (try dsimp only at h) <;> (repeat' split at h) <;> cases h <;> exact trivial

theorem reclaim_promised (h : reclaimStep s others w pc = some (w', pc')) : pc'.Promised s w' saved := by
  unfold reclaimStep at h
  split at h <;> (try dsimp only at h) <;> (repeat' split at h) <;> cases h <;> exact trivial

theorem stop_promised (h : stopStep s others w pc = some (w', pc')) : pc'.Promised s w' saved := by
  unfold stopStep selectStop writeStop at h
  split at h <;> (try dsimp only at h) <;> (repeat' split at h) <;> cases h <;> exact trivial

/-- **A statement keeps what the call promises.** -/
theorem exec_promised (hpc : pc.Promised s w saved) (h : exec s others w pc = some (w', pc')) : pc'.Promised s w' saved := by
  unfold exec at h
  rcases Option.or_eq_some_iff.mp h with h | ⟨-, h⟩
  · exact admit_promised hpc h
  rcases Option.or_eq_some_iff.mp h with h | ⟨-, h⟩
  · exact renew_promised h
  rcases Option.or_eq_some_iff.mp h with h | ⟨-, h⟩
  · exact release_promised h
  rcases Option.or_eq_some_iff.mp h with h | ⟨-, h⟩
  · exact reclaim_promised h
  · exact stop_promised h

/-- The lease rows that a statement updates nobody else has updated, and none is forgotten. -/
theorem Effect.rows (he : Effect s others w w') (id : ℕ) :
    (id ∈ w.rows → id ∈ w'.rows) ∧ (id ∈ w'.rows → id ∈ w.rows ∨ rowFree others id = true) := by
  cases he with
  | same _ hrows _ | enter _ _ _ _ _ hrows =>
    rw [hrows]
    exact ⟨fun h => h, Or.inl⟩
  | take _ _ _ | correct _ _ => exact ⟨fun h => h, Or.inl⟩
  | close _ _ _ hfree _ =>
    refine ⟨List.mem_append_right _, fun h => ?_⟩
    rcases List.mem_append.mp h with h | h
    · obtain ⟨l, hl, rfl⟩ := List.mem_map.mp h
      exact Or.inr (hfree l hl)
    · exact Or.inl h
  | renew hfree _ _ hrows _ =>
    rw [hrows]
    refine ⟨List.mem_cons_of_mem _, fun h => ?_⟩
    rcases List.mem_cons.mp h with rfl | h
    · exact Or.inr hfree
    · exact Or.inl h

end Statements

/-! ### The invariant -/

/-- Every call has done what it promises, and no lease row is updated by two transactions. -/
structure Promises (s : State) : Prop where
  call : ∀ (k : ℕ) (t : Tx) pc, s.txs[k]? = some t → t.call = some pc → pc.Promised s t.work t.saved
  savedRows : ∀ (k : ℕ) (t : Tx) id, s.txs[k]? = some t → id ∈ t.saved.rows → id ∈ t.work.rows
  alone : ∀ (j k : ℕ) (t t' : Tx) id, s.txs[j]? = some t → s.txs[k]? = some t' → id ∈ t.work.rows → id ∈ t'.work.rows → j = k

section Actions

variable {s s' : State} {w saved : Work} {pc : Pc}

/-- A promise speaks of the books that the transaction holds, and of the leases it has updated. -/
theorem Pc.Promised.of (hp : pc.Promised s w saved)
    (hsaved : ∀ g, (w.held.lookup g).isSome → booksOf s' saved g = booksOf s saved g)
    (hkept : ∀ g, ∀ l ∈ (booksOf s w g).leases, l.id ∈ w.rows → l ∈ (booksOf s' w g).leases) : pc.Promised s' w saved := by
  have huntouched {g : ℕ} (h : Untouched s w saved g) : Untouched s' w saved g := by
    obtain ⟨⟨b, hb, hsame⟩, helse⟩ := h
    exact ⟨⟨b, hb, hsaved g (by rw [hb]; rfl) ▸ hsame⟩, helse⟩
  cases pc with
  | replay a | leased a | book a => exact huntouched hp
  | admitted r now reply =>
    cases reply with
    | refused reason => exact trivial
    | granted leaseId token replay =>
      cases replay with
      | false => exact hp
      | true =>
        obtain ⟨hu, hstored⟩ := hp
        obtain ⟨b, hb, -⟩ := hu.books
        refine ⟨huntouched hu, ?_⟩
        rw [booksOf_held hb] at hstored ⊢
        exact hstored
  | renewed x reply =>
    cases x with
    | none => exact trivial
    | some x =>
      cases reply with
      | renewed e =>
        obtain ⟨he, hexpiry, hrow, l, hl, hid, hrest⟩ := hp
        exact ⟨he, hexpiry, hrow, l, hkept _ l hl (hid ▸ hrow), hid, hrest⟩
      | fenced | stopPending key | grantInvalid reason => exact trivial
  | _ => exact hp

/-- Nobody's books have changed. -/
theorem Promises.congr (h : Promises s) (hbooks : ∀ w g, booksOf s' w g = booksOf s w g) (htxs : s'.txs = s.txs) :
    Promises s' := by
  refine ⟨fun k t pc hk hpc => ?_, fun k t id hk => h.savedRows k t id (htxs ▸ hk), fun j k t t' id hj hk =>
    h.alone j k t t' id (htxs ▸ hj) (htxs ▸ hk)⟩
  exact (h.call k t pc (htxs ▸ hk) hpc).of (fun g _ => hbooks _ g) fun g l hl _ => (hbooks _ g).symm ▸ hl

/-- One transaction goes on. -/
theorem Promises.setTx (h : Promises s) {k : ℕ} {t t' : Tx} (hk : s.txs[k]? = some t)
    (hcall : ∀ pc, t'.call = some pc → pc.Promised s t'.work t'.saved) (hsaved : ∀ id ∈ t'.saved.rows, id ∈ t'.work.rows)
    (hrows : ∀ id ∈ t'.work.rows, id ∈ t.work.rows ∨ rowFree (s.others k) id = true) : Promises (s.setTx k t') := by
  have hset := fun (j : ℕ) (u : Tx) (hj : (s.txs.set k t')[j]? = some u) => getElem?_set_cases hk hj
  have hsame : ∀ w g, booksOf (s.setTx k t') w g = booksOf s w g := fun w g => rfl
  refine ⟨fun j u pc hj hpc => ?_, fun j u id hj => ?_, fun i j u u' id hi hj hu hu' => ?_⟩
  · rcases hset j u hj with ⟨-, rfl⟩ | ⟨-, hj⟩
    · exact (hcall pc hpc).of (fun g _ => hsame _ g) fun g l hl _ => hl
    · exact (h.call j u pc hj hpc).of (fun g _ => hsame _ g) fun g l hl _ => hl
  · rcases hset j u hj with ⟨-, rfl⟩ | ⟨-, hj⟩
    · exact hsaved id
    · exact h.savedRows j u id hj
  · have hmine : ∀ j u, j ≠ k → s.txs[j]? = some u → id ∈ u.work.rows → id ∉ t'.work.rows := by
      intro j u hne hj hu ht
      rcases hrows id ht with ht | hfree
      · exact hne (h.alone j k u t id hj hk hu ht)
      · have := List.all_eq_true.mp hfree _ (mem_others hne hj)
        simp [hu] at this
    rcases hset i u hi with ⟨hik, hit⟩ | ⟨hni, hi⟩ <;> rcases hset j u' hj with ⟨hjk, hjt⟩ | ⟨hnj, hj⟩
    · exact hik.trans hjk.symm
    · exact absurd (hit ▸ hu) (hmine j u' hnj hj hu')
    · exact absurd (hjt ▸ hu') (hmine i u hni hi hu)
    · exact h.alone i j u u' id hi hj hu hu'

/-- The books of a grant after a commit. -/
theorem booksOf_install {t : Tx} (ht : t.work.Sound s) (w : Work) (g : ℕ) :
    booksOf (s.install t.work) w g = if (w.held.lookup g).isSome then booksOf s w g else booksOf s t.work g := by
  unfold booksOf
  rcases hw : w.held.lookup g with _ | b
  · rw [getElem?_install]
    rcases hl : t.work.held.lookup g with _ | b
    · rcases s.accounts[g]? with _ | account <;> rfl
    · obtain ⟨account, ha, -⟩ := ht.books g b hl
      simp [ha]
  · rfl

/-- What others have promised does not touch what is committed. -/
theorem Promises.commit (h : Promises s) (hs : Sound s) {k : ℕ} {t : Tx} (hk : s.txs[k]? = some t) :
    Promises ((s.install t.work).setTx k .idle) := by
  have ht := (hs.txs k t hk).work
  have hset := fun (j : ℕ) (u : Tx) (hj : (s.txs.set k .idle)[j]? = some u) => (getElem?_set_cases hk hj).imp_left And.right
  refine ⟨fun j u pc hj hpc => ?_, fun j u id hj => ?_, fun i j u u' id hi hj hu hu' => ?_⟩
  · rcases hset j u hj with rfl | ⟨hne, hj⟩
    · cases hpc
    have hinstalled : pc.Promised (s.install t.work) u.work u.saved := by
      refine (h.call j u pc hj hpc).of (fun g hg => ?_) fun g l hl hrow => ?_
      · have hfree : t.work.held.lookup g = none := by
          by_contra hc
          exact hne (hs.alone j k u t g hj hk hg (Option.isSome_iff_ne_none.mpr hc))
        rw [booksOf_install ht]
        unfold booksOf
        rcases u.saved.held.lookup g with _ | b
        · rw [hfree]
          rfl
        · rfl
      · rw [booksOf_install ht]
        split
        · exact hl
        rename_i hnone
        rw [Option.not_isSome_iff_eq_none] at hnone
        rcases hb : t.work.held.lookup g with _ | b
        · unfold booksOf at hl ⊢
          rw [hb]
          rwa [hnone] at hl
        · obtain ⟨account, ha, -, hfollows⟩ := ht.books g b hb
          rw [booksOf_free hnone ha] at hl
          rw [booksOf_held hb]
          exact hfollows.untouched hl fun hmem => hne (h.alone j k u t l.id hj hk hrow hmem)
    exact hinstalled.of (fun g _ => rfl) fun g l hl _ => hl
  · rcases hset j u hj with rfl | ⟨-, hj⟩
    · exact fun hid => nomatch hid
    · exact h.savedRows j u id hj
  · rcases hset i u hi with rfl | ⟨-, hi⟩
    · cases hu
    rcases hset j u' hj with rfl | ⟨-, hj⟩
    · cases hu'
    · exact h.alone i j u u' id hi hj hu hu'

theorem start_promised (c : Call) (now : ℤ) (w : Work) : (c.start now).Promised s w w := by
  cases c <;> simp only [Call.start] <;> (try split) <;> first | exact trivial | rfl

/-- **Every action keeps the promises.** -/
theorem Promises.step {a : Action} (h : Promises s) (hs : Sound s) (hstep : step s a s') : Promises s' := by
  cases a with
  | tick ms | setOperators operators | createTarget userId classification | classify targetId classification
    | createScan userId targetId =>
    cases hstep
    exact h.congr (fun _ _ => rfl) rfl
  | authorize grant =>
    simp only [Safety.step, next] at hstep
    split at hstep <;> cases hstep
    refine h.congr (fun w g => ?_) rfl
    unfold booksOf
    rcases w.held.lookup g with _ | b
    · dsimp only
      rcases Nat.lt_trichotomy g s.accounts.length with hg | rfl | hg
      · rw [List.getElem?_append_left hg]
      · simp
      · rw [List.getElem?_eq_none (by simpa using Nat.succ_le_of_lt hg), List.getElem?_eq_none hg.le]
    · rfl
  | revoke g' =>
    cases hstep
    refine h.congr (fun w g => ?_) rfl
    unfold booksOf
    dsimp only
    rw [List.getElem?_modify]
    rcases s.accounts[g]? with _ | account
    · rfl
    · by_cases e : g' = g <;> simp [e]
  | connect =>
    cases hstep
    refine ⟨fun j u pc hj hpc => ?_, fun j u id hj => ?_, fun i j u u' id hi hj hu hu' => ?_⟩
    · rcases getElem?_concat_cases hj with rfl | hj
      · cases hpc
      · exact (h.call j u pc hj hpc).of (fun _ _ => rfl) fun _ _ hl _ => hl
    · rcases getElem?_concat_cases hj with rfl | hj
      · exact fun hid => hid
      · exact h.savedRows j u id hj
    · rcases getElem?_concat_cases hi with rfl | hi
      · cases hu
      rcases getElem?_concat_cases hj with rfl | hj
      · cases hu'
      · exact h.alone i j u u' id hi hj hu hu'
  | call k c =>
    obtain ⟨t, hk, hstep⟩ := Option.bind_eq_some_iff.mp hstep
    split at hstep <;> cases hstep
    refine h.setTx hk (fun pc hpc => ?_) (fun id hid => hid) fun id hid => Or.inl hid
    cases hpc
    exact start_promised c _ _
  | run k =>
    obtain ⟨t, hk, hstep⟩ := Option.bind_eq_some_iff.mp hstep
    obtain ⟨pc, hpc, hstep⟩ := Option.bind_eq_some_iff.mp hstep
    obtain ⟨⟨w, pc'⟩, he, hstep⟩ := Option.bind_eq_some_iff.mp hstep
    cases hstep
    obtain ⟨heffect, -⟩ := exec_does ((hs.txs k t hk).call pc hpc) he
    have h' : Promises { s with serial := s.serial + 2 } := h.congr (fun _ _ => rfl) rfl
    refine h'.setTx (t := t) hk (fun pc hpc' => ?_) (fun id hid => ?_) fun id hid => (heffect.rows id).2 hid
    · cases hpc'
      exact (exec_promised (h.call k t pc hk hpc) he).of (fun _ _ => rfl) fun _ _ hl _ => hl
    · exact (heffect.rows id).1 (h.savedRows k t id hk hid)
  | commit k =>
    obtain ⟨t, hk, hstep⟩ := Option.bind_eq_some_iff.mp hstep
    split at hstep <;> cases hstep
    exact h.commit hs hk
  | rollback k =>
    obtain ⟨t, hk, hstep⟩ := Option.bind_eq_some_iff.mp hstep
    cases hstep
    exact h.setTx hk (fun pc hpc => by cases hpc) (fun id hid => hid) fun id hid => by cases hid
  | rescue k =>
    obtain ⟨t, hk, hstep⟩ := Option.bind_eq_some_iff.mp hstep
    cases hstep
    exact h.setTx hk (fun pc hpc => by cases hpc) (fun id hid => hid) fun id hid => Or.inl (h.savedRows k t id hk hid)

theorem promises_reachable (h : Reaches step .init s) : Promises s := by
  have hinit : Promises .init := ⟨(fun _ _ _ hk => nomatch hk), (fun _ _ _ hk => nomatch hk), fun _ _ _ _ _ hj => nomatch hj⟩
  refine (h.inv (I := fun s => Sound s ∧ Promises s) ⟨sound_init, hinit⟩ fun s a s' hs hstep => ?_).2
  exact ⟨hs.1.step hstep, hs.2.step hs.1 hstep⟩

end Actions

/-! ### What is there when it commits -/

/-- The grant has an open lease of that id, token and execution, and it runs until then. -/
def State.HasLease (s : State) (g id token : ℕ) (executionId : String) (expiresAt : ℤ) : Prop :=
  ∃ account, s.accounts[g]? = some account ∧ ∃ l ∈ account.books.leases, l.id = id ∧ l.holderToken = token ∧ l.isOpen = true ∧
    l.executionId = executionId ∧ s.expiry.lookup id = some expiresAt

section Commits

variable {s s' : State} {k : ℕ} {t : Tx}

theorem lookup_append_some {l l' : List (ℕ × ℤ)} {id : ℕ} {e : ℤ} (h : l.lookup id = some e) : (l ++ l').lookup id = some e := by
  induction l with
  | nil => cases h
  | cons p l ih =>
    rw [List.lookup_cons] at h
    rw [List.cons_append, List.lookup_cons]
    split at h
    · exact h
    · exact ih h

/-- The books of a grant that there is are what the transaction has made of them. -/
theorem commit_books (hs : Sound s) (hk : s.txs[k]? = some t) (hc : step s (.commit k) s') {g : ℕ} (hg : g < s.accounts.length) :
    s'.expiry = t.work.expiries ++ s.expiry ∧ ∃ account, s'.accounts[g]? = some account ∧ account.books = booksOf s t.work g := by
  obtain ⟨t', hk', h⟩ := Option.bind_eq_some_iff.mp hc
  obtain rfl := Option.some.inj (hk.symm.trans hk')
  split at h <;> cases h
  refine ⟨rfl, ?_⟩
  obtain ⟨account, ha, -⟩ := booksOf_sound hs (hs.txs k t hk).work hg
  refine ⟨_, getElem?_install.trans (by rw [ha]; rfl), ?_⟩
  unfold booksOf
  rcases t.work.held.lookup g with _ | b
  · rw [ha]
    rfl
  · rfl

/-- A lease that is in the transaction's books, with the time that it has set, is there for all to see. -/
theorem commit_lease (hs : Sound s) (hk : s.txs[k]? = some t) (hc : step s (.commit k) s') {g : ℕ} {l : AdmissionLease} {e : ℤ}
    (hl : l ∈ (booksOf s t.work g).leases) (hopen : l.isOpen = true) (he : t.work.expiries.lookup l.id = some e) :
    s'.HasLease g l.id l.holderToken l.executionId e := by
  have hg : g < s.accounts.length := by
    by_contra hge
    unfold booksOf at hl
    rcases hb : t.work.held.lookup g with _ | b
    · rw [hb, List.getElem?_eq_none (by omega)] at hl
      cases hl
    · obtain ⟨account, ha, -⟩ := (hs.txs k t hk).work.books g b hb
      exact hge (List.getElem?_eq_some_iff.mp ha).1
  obtain ⟨hexpiry, account, ha, hbooks⟩ := commit_books hs hk hc hg
  exact ⟨account, ha, l, hbooks ▸ hl, rfl, rfl, hopen, rfl, hexpiry ▸ lookup_append_some he⟩

end Commits

end WebAudit.Safety
