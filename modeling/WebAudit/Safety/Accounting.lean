import WebAudit.Lib.Rows
import WebAudit.Safety.System

/-!
# The counters of a grant agree with its rows

A grant's books are sound when its counter is the number of its open leases and of its consumption
rows, both within budget (`Books.Sound`). Every change of the books that a statement can make keeps
them so, in the transaction that makes it; nobody else has them in the meantime; so they are sound
in every state reached (`sound_reachable`). A lease that is closed stays as it is (`Books.Follows`),
so it goes down in the counter once.
-/

namespace WebAudit.Safety

open WebAudit.Lib

/-! ### Sound books -/

/-- The counter agrees with the rows and the budgets. -/
structure Books.Sound (grant : TargetAuthorization) (serial : ℕ) (b : Books) : Prop where
  active : b.activeConcurrency = b.openCount
  activeLe : b.activeConcurrency ≤ grant.concurrencyBudget
  consumed : b.consumedRequests = b.consumptions.length
  consumedLe : b.consumedRequests ≤ grant.requestBudget
  ids : (b.leases.map (·.id)).Nodup
  idsLt : ∀ l ∈ b.leases, l.id < serial

section Books

variable {b : Books} {grant grant' : TargetAuthorization} {serial serial' : ℕ} {p : AdmissionLease → Bool}
  {stamp : AdmissionLease → AdmissionLease}

theorem Books.Sound.empty (hr : 0 ≤ grant.requestBudget) (hc : 0 ≤ grant.concurrencyBudget) :
    Books.empty.Sound grant serial := ⟨rfl, hc, rfl, hr, List.nodup_nil, fun _ hl => nomatch hl⟩

theorem Books.Sound.mono (h : b.Sound grant serial) (hr : grant'.requestBudget = grant.requestBudget)
    (hc : grant'.concurrencyBudget = grant.concurrencyBudget) (hs : serial ≤ serial') : b.Sound grant' serial' :=
  ⟨h.active, hc ▸ h.activeLe, h.consumed, hr ▸ h.consumedLe, h.ids, fun l hl => (h.idsLt l hl).trans_le hs⟩

@[simp] theorem activeConcurrency_withCounter : b.withCounter.activeConcurrency = b.activeConcurrency := by
  unfold Books.withCounter Books.activeConcurrency
  rcases b.counter with _ | c <;> rfl

@[simp] theorem consumedRequests_withCounter : b.withCounter.consumedRequests = b.consumedRequests := by
  unfold Books.withCounter Books.consumedRequests
  rcases b.counter with _ | c <;> rfl

theorem Books.Sound.withCounter (h : b.Sound grant serial) : b.withCounter.Sound grant serial := by
  refine ⟨?_, ?_, ?_, ?_, h.ids, h.idsLt⟩
  · rw [activeConcurrency_withCounter]
    exact h.active
  · rw [activeConcurrency_withCounter]
    exact h.activeLe
  · rw [consumedRequests_withCounter]
    exact h.consumed
  · rw [consumedRequests_withCounter]
    exact h.consumedLe

@[simp] theorem consumedRequests_setActive (f : ℤ → ℤ) : (b.setActive f).consumedRequests = b.consumedRequests := by
  unfold Books.setActive Books.consumedRequests
  rcases b.counter with _ | c <;> rfl

/-- What is open after a close, and what the close has closed. -/
theorem openCount_close (hstamp : Stamps stamp) : (b.close p stamp).openCount + (b.closing p).length = b.openCount := by
  unfold Books.close Books.closing Books.openCount
  dsimp only
  induction b.leases with
  | nil => rfl
  | cons l ls ih =>
    by_cases hl : (l.isOpen && p l) = true
    · have hopen : l.isOpen = true := (Bool.and_eq_true_iff.mp hl).1
      rw [List.map_cons, if_pos hl, List.countP_cons_of_neg (by simp [hstamp.closed]), List.filter_cons, if_pos hl,
        List.countP_cons_of_pos (p := fun x : AdmissionLease => x.isOpen) hopen, List.length_cons]
      omega
    · rw [List.map_cons, if_neg hl, List.filter_cons, if_neg hl, List.countP_cons, List.countP_cons]
      omega

theorem map_id_close (hstamp : Stamps stamp) : (b.close p stamp).leases.map (·.id) = b.leases.map (·.id) := by
  unfold Books.close
  rw [List.map_map]
  refine List.map_congr_left fun l _ => ?_
  dsimp only [Function.comp_apply]
  split
  · exact hstamp.id l
  · rfl

/-- Leases closed, the counter put right. -/
theorem Books.Sound.close (h : b.Sound grant serial) (hstamp : Stamps stamp) {f : ℤ → ℤ}
    (hf : f b.activeConcurrency = (b.close p stamp).openCount) : ((b.close p stamp).setActive f).Sound grant serial := by
  have hcount := openCount_close (b := b) (p := p) hstamp
  have hactive : ((b.close p stamp).setActive f).activeConcurrency = (b.close p stamp).openCount := by
    rcases hc : b.counter with _ | c
    · have hzero : b.openCount = 0 := by
        have := h.active
        simp only [Books.activeConcurrency, hc, Option.map_none, Option.getD_none] at this
        omega
      have : (b.close p stamp).openCount = 0 := by omega
      simp [Books.setActive, Books.close, Books.activeConcurrency, hc] at this ⊢
      omega
    · rw [← hf]
      simp [Books.setActive, Books.close, Books.activeConcurrency, hc]
  refine ⟨hactive, ?_, ?_, ?_, ?_, ?_⟩
  · rw [hactive]
    have := h.active
    have := h.activeLe
    omega
  · rw [consumedRequests_setActive]
    exact h.consumed
  · rw [consumedRequests_setActive]
    exact h.consumedLe
  · show ((b.close p stamp).leases.map (·.id)).Nodup
    rw [map_id_close hstamp]
    exact h.ids
  · intro l hl
    have hid : l.id ∈ b.leases.map (·.id) := by
      rw [← map_id_close (p := p) hstamp]
      exact List.mem_map_of_mem hl
    obtain ⟨l', hl', e⟩ := List.mem_map.mp hid
    rw [← e]
    exact h.idsLt l' hl'

/-- A lease of a given id is closed by itself. -/
theorem closing_id_length (h : b.Sound grant serial) {id : ℕ} (hne : b.closing (fun l => l.id = id) ≠ []) :
    (b.closing (fun l => l.id = id)).length = 1 := by
  have hnd : (b.closing (fun l => l.id = id)).Nodup := (List.Nodup.of_map _ h.ids).filter _
  have hsame : ∀ l ∈ b.closing (fun l => l.id = id), l ∈ b.leases ∧ l.id = id := fun l hl => by
    obtain ⟨hmem, hp⟩ := List.mem_filter.mp hl
    exact ⟨hmem, by simpa using (Bool.and_eq_true_iff.mp hp).2⟩
  rcases hc : b.closing (fun l => l.id = id) with _ | ⟨l, _ | ⟨l', ls⟩⟩
  · exact absurd hc hne
  · rfl
  · rw [hc] at hnd hsame
    have hl := hsame l (List.mem_cons_self ..)
    have hl' := hsame l' (List.mem_cons_of_mem _ (List.mem_cons_self ..))
    have heq := List.inj_on_of_nodup_map h.ids hl.1 hl'.1 (hl.2.trans hl'.2.symm)
    exact absurd (heq ▸ List.mem_cons_self ..) (List.nodup_cons.mp hnd).1

/-- An admission entered within the budgets. -/
theorem Books.Sound.enter {a : Admission} (h : b.Sound grant serial) (hc : b.counter.isSome)
    (hrequest : a.r.consumeRequest = true → b.consumedRequests + 1 ≤ grant.requestBudget)
    (hconcurrency : a.r.consumeConcurrency = true → b.activeConcurrency + 1 ≤ grant.concurrencyBudget) :
    (a.enter serial b).Sound grant (serial + 2) := by
  obtain ⟨c, hc⟩ := Option.isSome_iff_exists.mp hc
  obtain ⟨hactive, hactiveLe, hconsumed, hconsumedLe, hids, hidsLt⟩ := h
  simp only [Books.activeConcurrency, hc, Option.map_some, Option.getD_some] at hactive hactiveLe hconcurrency
  simp only [Books.consumedRequests, hc, Option.map_some, Option.getD_some] at hconsumed hconsumedLe hrequest
  refine ⟨?_, ?_, ?_, ?_, ?_, ?_⟩
  · by_cases hn : a.r.consumeConcurrency = true
    · have hopen : (a.lease serial).isOpen = true := rfl
      simp only [Books.openCount] at hactive
      simp [Books.activeConcurrency, Books.openCount, Admission.enter, hc, hn, hopen, hactive]
    · simpa [Books.activeConcurrency, Books.openCount, Admission.enter, hc, hn] using hactive
  · by_cases hn : a.r.consumeConcurrency = true
    · simpa [Books.activeConcurrency, Admission.enter, hc, hn] using hconcurrency hn
    · simpa [Books.activeConcurrency, Admission.enter, hc, hn] using hactiveLe
  · by_cases hr : a.r.consumeRequest = true
    · simp [Books.consumedRequests, Admission.enter, hc, hr, hconsumed]
    · simpa [Books.consumedRequests, Admission.enter, hc, hr] using hconsumed
  · by_cases hr : a.r.consumeRequest = true
    · simpa [Books.consumedRequests, Admission.enter, hc, hr] using hrequest hr
    · simpa [Books.consumedRequests, Admission.enter, hc, hr] using hconsumedLe
  · by_cases hn : a.r.consumeConcurrency = true
    · simp only [Admission.enter, hn, if_true, List.map_append, List.map_singleton]
      refine List.nodup_append.mpr ⟨hids, List.nodup_singleton _, fun id hid id' hid' e => ?_⟩
      obtain ⟨l, hl, rfl⟩ := List.mem_map.mp hid
      have := hidsLt l hl
      have hnew : id' = serial := List.mem_singleton.mp hid'
      omega
    · simpa [Admission.enter, hn] using hids
  · intro l hl
    by_cases hn : a.r.consumeConcurrency = true
    · simp only [Admission.enter, hn, if_true] at hl
      rcases List.mem_append.mp hl with hl | hl
      · have := hidsLt l hl
        omega
      · obtain rfl := List.mem_singleton.mp hl
        show serial < serial + 2
        omega
    · simp only [Admission.enter, hn] at hl
      have := hidsLt l (by simpa using hl)
      omega

/-- The counter put right when it is. -/
theorem Books.Sound.correct (h : b.Sound grant serial) : (b.setActive fun _ => b.openCount).Sound grant serial := by
  have hsame : (b.setActive fun _ => (b.openCount : ℤ)).activeConcurrency = b.activeConcurrency := by
    have := h.active
    rcases hc : b.counter with _ | c
    · simp [Books.setActive, Books.activeConcurrency, hc]
    · simp only [Books.activeConcurrency, hc, Option.map_some, Option.getD_some] at this
      simp [Books.setActive, Books.activeConcurrency, hc, this]
  refine ⟨hsame.trans h.active, hsame.trans_le h.activeLe, ?_, ?_, h.ids, h.idsLt⟩
  · rw [consumedRequests_setActive]
    exact h.consumed
  · rw [consumedRequests_setActive]
    exact h.consumedLe

end Books

/-! ### What becomes of the rows -/

/-- The row is as it was, or it was open, the transaction has updated it, and it is closed now. -/
def Kept (rows : List ℕ) (l l' : AdmissionLease) : Prop :=
  l' = l ∨ l.isOpen = true ∧ l'.isOpen = false ∧ l'.id = l.id ∧ l.id ∈ rows

/-- The old rows are there, open ones perhaps closed, and new ones after them. -/
def Books.Follows (rows : List ℕ) (b b' : Books) : Prop :=
  ∃ kept news, b'.leases = kept ++ news ∧ List.Forall₂ (Kept rows) b.leases kept

section Follows

variable {b b' : Books} {rows rows' : List ℕ} {p : AdmissionLease → Bool} {stamp : AdmissionLease → AdmissionLease}

theorem Books.Follows.refl (rows : List ℕ) (b : Books) : b.Follows rows b :=
  ⟨b.leases, [], (List.append_nil _).symm, List.forall₂_same.mpr fun _ _ => Or.inl rfl⟩

theorem Books.Follows.mono (h : b.Follows rows b') (hr : ∀ id ∈ rows, id ∈ rows') : b.Follows rows' b' := by
  obtain ⟨kept, news, he, hall⟩ := h
  exact ⟨kept, news, he, hall.imp fun l l' hk => hk.imp_right fun ⟨ho, hc, hid, hmem⟩ => ⟨ho, hc, hid, hr _ hmem⟩⟩

/-- Rows may be appended. -/
theorem Books.Follows.append (h : b.Follows rows b') (more : List AdmissionLease) {b'' : Books}
    (he : b''.leases = b'.leases ++ more) : b.Follows rows b'' := by
  obtain ⟨kept, news, he', hall⟩ := h
  exact ⟨kept, news ++ more, by rw [he, he', List.append_assoc], hall⟩

/-- Open rows may be closed. -/
theorem Books.Follows.close (h : b.Follows rows b') (hstamp : Stamps stamp) (f : ℤ → ℤ) :
    b.Follows ((b'.closing p).map (·.id) ++ rows) ((b'.close p stamp).setActive f) := by
  obtain ⟨kept, news, he, hall⟩ := h
  refine ⟨kept.map fun l => if l.isOpen && p l then stamp l else l, news.map fun l => if l.isOpen && p l then stamp l else l, ?_, ?_⟩
  · show (b'.close p stamp).leases = _
    simp only [Books.close, he, List.map_append]
  · have hrows : ∀ l ∈ kept, (l.isOpen && p l) = true → l.id ∈ (b'.closing p).map (·.id) := fun l hl hp =>
      List.mem_map_of_mem (List.mem_filter.mpr ⟨by rw [he]; exact List.mem_append_left _ hl, hp⟩)
    clear he
    generalize b.leases = old at hall
    induction hall with
    | nil => exact .nil
    | @cons l l' ls ls' hk _ ih =>
      refine .cons ?_ (ih fun l hl => hrows l (List.mem_cons_of_mem _ hl))
      dsimp only
      by_cases hp : (l'.isOpen && p l') = true
      · rw [if_pos hp]
        have hopen : l'.isOpen = true := (Bool.and_eq_true_iff.mp hp).1
        rcases hk with rfl | ⟨-, hclosed, -⟩
        · exact .inr ⟨hopen, hstamp.closed _, hstamp.id _, List.mem_append_left _ (hrows _ (List.mem_cons_self ..) hp)⟩
        · rw [hopen] at hclosed
          cases hclosed
      · rw [if_neg hp]
        exact hk.imp_right fun ⟨ho, hc, hid, hmem⟩ => ⟨ho, hc, hid, List.mem_append_right _ hmem⟩

theorem Books.Follows.kept (h : b.Follows rows b') {l : AdmissionLease} (hl : l ∈ b.leases) : ∃ l' ∈ b'.leases, Kept rows l l' := by
  obtain ⟨kept, news, he, hall⟩ := h
  have hmem : ∃ l' ∈ kept, Kept rows l l' := by
    clear he
    generalize b.leases = old at hall hl
    induction hall with
    | nil => cases hl
    | @cons a a' as as' hk _ ih =>
      rcases List.mem_cons.mp hl with rfl | hl
      · exact ⟨a', List.mem_cons_self .., hk⟩
      · obtain ⟨l', hl', hk'⟩ := ih hl
        exact ⟨l', List.mem_cons_of_mem _ hl', hk'⟩
  obtain ⟨l', hl', hk⟩ := hmem
  exact ⟨l', he ▸ List.mem_append_left _ hl', hk⟩

/-- A row that is closed stays as it is. -/
theorem Books.Follows.closed (h : b.Follows rows b') {l : AdmissionLease} (hl : l ∈ b.leases) (hc : l.isOpen = false) :
    l ∈ b'.leases := by
  obtain ⟨l', hl', rfl | ⟨ho, -⟩⟩ := h.kept hl
  · exact hl'
  · rw [ho] at hc
    cases hc

/-- So does a row that the transaction has not updated. -/
theorem Books.Follows.untouched (h : b.Follows rows b') {l : AdmissionLease} (hl : l ∈ b.leases) (hid : l.id ∉ rows) :
    l ∈ b'.leases := by
  obtain ⟨l', hl', rfl | ⟨-, -, -, hmem⟩⟩ := h.kept hl
  · exact hl'
  · exact absurd hmem hid

end Follows

/-- The rows that were open and are closed now. -/
def closedCount (b b' : Books) : ℕ := (b.leases.zip b'.leases).countP fun p => p.1.isOpen && !p.2.isOpen

/-- The new rows that are open. -/
def openedCount (b b' : Books) : ℕ := (b'.leases.drop b.leases.length).countP (·.isOpen)

/-- Every lease opened is one more, every lease closed is one less. -/
theorem openCount_follows {b b' : Books} {rows : List ℕ} (h : b.Follows rows b') :
    b'.openCount + closedCount b b' = b.openCount + openedCount b b' := by
  obtain ⟨kept, news, he, hall⟩ := h
  unfold Books.openCount closedCount openedCount
  rw [he]
  clear he
  generalize b.leases = old at hall
  induction hall with
  | nil => simp
  | @cons l l' ls ls' hk _ ih =>
    simp only [List.cons_append, List.zip_cons_cons, List.countP_cons, List.length_cons, List.drop_succ_cons]
    rcases hk with rfl | ⟨ho, hc, -⟩
    · have hnot : (l'.isOpen && !l'.isOpen) = false := by simp
      simp only [hnot, Bool.false_eq_true, if_false]
      omega
    · rw [ho, hc]
      simp only [Bool.not_false, Bool.and_self, Bool.false_eq_true, if_true, if_false]
      omega

/-! ### The invariant -/

/-- What a transaction has made of the books it holds. -/
structure Work.Sound (s : State) (w : Work) : Prop where
  books : ∀ g b, w.held.lookup g = some b →
    ∃ account, s.accounts[g]? = some account ∧ b.Sound account.grant s.serial ∧ account.books.Follows w.rows b

structure Tx.Sound (s : State) (t : Tx) : Prop where
  work : t.work.Sound s
  saved : t.saved.Sound s
  call : ∀ pc, t.call = some pc → pc.Sound s t.work

/-- Everyone's books are sound, and nobody holds what another holds. -/
structure Sound (s : State) : Prop where
  books : ∀ (g : ℕ) (account : Account), s.accounts[g]? = some account → account.books.Sound account.grant s.serial
  txs : ∀ (k : ℕ) (t : Tx), s.txs[k]? = some t → t.Sound s
  savedHeld : ∀ (k : ℕ) (t : Tx) g, s.txs[k]? = some t → (t.saved.held.lookup g).isSome → (t.work.held.lookup g).isSome
  alone : ∀ (j k : ℕ) (t t' : Tx) g, s.txs[j]? = some t → s.txs[k]? = some t' → (t.work.held.lookup g).isSome →
    (t'.work.held.lookup g).isSome → j = k

/-- The accounts are still there, with their budgets and books. -/
structure Grows (s s' : State) : Prop where
  accounts : ∀ (g : ℕ) (account : Account), s.accounts[g]? = some account → ∃ account', s'.accounts[g]? = some account' ∧
    account'.grant.requestBudget = account.grant.requestBudget ∧
    account'.grant.concurrencyBudget = account.grant.concurrencyBudget ∧ account'.books = account.books
  serial : s.serial ≤ s'.serial

section Grows

variable {s s' : State} {w : Work} {pc : Pc}

theorem Grows.of_eq (ha : s'.accounts = s.accounts) (hs : s.serial ≤ s'.serial) : Grows s s' :=
  ⟨fun _ account h => ⟨account, ha ▸ h, rfl, rfl, rfl⟩, hs⟩

theorem Grows.lt (h : Grows s s') {g : ℕ} (hg : g < s.accounts.length) : g < s'.accounts.length := by
  obtain ⟨account', ha, -⟩ := h.accounts g _ (List.getElem?_eq_getElem hg)
  exact (List.getElem?_eq_some_iff.mp ha).1

theorem Work.Sound.grows (hw : w.Sound s) (h : Grows s s') : w.Sound s' := by
  refine ⟨fun g b hb => ?_⟩
  obtain ⟨account, ha, hsound, hfollows⟩ := hw.books g b hb
  obtain ⟨account', ha', hr, hc, hbooks⟩ := h.accounts g account ha
  exact ⟨account', ha', hsound.mono hr hc h.serial, hbooks ▸ hfollows⟩

theorem Admission.Matches.grows {a : Admission} (hm : a.Matches s) (h : Grows s s') : a.Matches s' := by
  obtain ⟨account, ha, hr, hc⟩ := hm
  obtain ⟨account', ha', hr', hc', -⟩ := h.accounts _ account ha
  exact ⟨account', ha', hr'.trans hr, hc'.trans hc⟩

/-- What is known at a statement speaks of the accounts' budgets and number. -/
theorem Pc.Sound.of (hp : pc.Sound s w) (hm : ∀ a : Admission, a.Matches s → a.Matches s')
    (hlt : ∀ g, g < s.accounts.length → g < s'.accounts.length) : pc.Sound s' w := by
  cases pc with
  | scan a | tenant a | pending a | environment a | counter a => exact hm a hp
  | lock a left => exact hm a hp
  | replay a | leased a | book a => exact ⟨hm a hp.1, hp.2⟩
  | tokenCounter id g now => exact hlt g hp
  | tokenUpdate id g now => exact ⟨hlt g hp.1, hp.2⟩
  | executionNext e now grants total => exact fun g hg => hlt g (hp g hg)
  | executionUpdate e now g grants total => exact ⟨⟨hlt g hp.1.1, hp.1.2⟩, fun g' hg' => hlt g' (hp.2 g' hg')⟩
  | reclaimNext x grants | driftNext x grants => exact fun g hg => hlt g (hp g hg)
  | reclaimUpdate x g grants | driftUpdate x g grants => exact ⟨⟨hlt g hp.1.1, hp.1.2⟩, fun g' hg' => hlt g' (hp.2 g' hg')⟩
  | _ => exact trivial

theorem Tx.Sound.grows {t : Tx} (ht : t.Sound s) (h : Grows s s') : t.Sound s' :=
  ⟨ht.work.grows h, ht.saved.grows h, fun pc hpc => (ht.call pc hpc).of (fun _ hm => hm.grows h) fun _ => h.lt⟩

end Grows

/-! ### Statements keep it -/

section Statements

variable {s : State} {k : ℕ} {t : Tx} {w' : Work}

theorem mem_others {j : ℕ} {t' : Tx} (hne : j ≠ k) (hj : s.txs[j]? = some t') : t'.work ∈ s.others k :=
  List.mem_map_of_mem (List.mem_eraseIdx_iff_getElem?.mpr ⟨j, hne, hj⟩)

/-- What nobody else has locked, nobody else holds. -/
theorem not_held_of_free {g j : ℕ} {t' : Tx} (hfree : counterFree (s.others k) g = true) (hne : j ≠ k) (hj : s.txs[j]? = some t') :
    t'.work.held.lookup g = none := by
  have := List.all_eq_true.mp hfree _ (mem_others hne hj)
  simpa using this

/-- The books of an account, as the transaction sees them. -/
theorem booksOf_sound (hs : Sound s) (hw : t.work.Sound s) {g : ℕ} (hg : g < s.accounts.length) :
    ∃ account, s.accounts[g]? = some account ∧ (booksOf s t.work g).Sound account.grant s.serial ∧
      account.books.Follows t.work.rows (booksOf s t.work g) := by
  rcases hl : t.work.held.lookup g with _ | b
  · refine ⟨s.accounts[g], List.getElem?_eq_getElem hg, ?_⟩
    rw [booksOf_free hl (List.getElem?_eq_getElem hg)]
    exact ⟨hs.books g _ (List.getElem?_eq_getElem hg), .refl _ _⟩
  · rw [booksOf_held hl]
    exact hw.books g b hl

/-- Books that the transaction holds are replaced by others. -/
theorem Work.Sound.hold {w : Work} (hw : w.Sound s) (hrows : ∀ id ∈ w.rows, id ∈ w'.rows) {g : ℕ} {b : Books}
    (hheld : w'.held = (w.hold g b).held) {account : Account} (ha : s.accounts[g]? = some account)
    (hb : b.Sound account.grant (s.serial + 2)) (hf : account.books.Follows w'.rows b) :
    w'.Sound { s with serial := s.serial + 2 } := by
  refine ⟨fun g' b' hb' => ?_⟩
  rw [hheld] at hb'
  by_cases e : g' = g
  · subst e
    rw [lookup_hold] at hb'
    cases hb'
    exact ⟨account, ha, hb, hf⟩
  · rw [lookup_hold_ne e] at hb'
    obtain ⟨account', ha', hs', hf'⟩ := hw.books g' b' hb'
    exact ⟨account', ha', hs'.mono rfl rfl (Nat.le_add_right _ _), hf'.mono hrows⟩

/-- What is left as it was. -/
theorem Work.Sound.keep {w : Work} (hw : w.Sound s) (hheld : w'.held = w.held) (hrows : ∀ id ∈ w.rows, id ∈ w'.rows) :
    w'.Sound { s with serial := s.serial + 2 } := by
  refine ⟨fun g b hb => ?_⟩
  obtain ⟨account, ha, hs, hf⟩ := hw.books g b (hheld ▸ hb)
  exact ⟨account, ha, hs.mono rfl rfl (Nat.le_add_right _ _), hf.mono hrows⟩

theorem Effect.sound (hs : Sound s) (ht : t.Sound s) (he : Effect s (s.others k) t.work w') :
    w'.Sound { s with serial := s.serial + 2 } := by
  cases he with
  | same hheld hrows _ => exact ht.work.keep hheld fun id hid => hrows ▸ hid
  | @take g b hg _ hb =>
    obtain ⟨account, ha, hsound, hfollows⟩ := booksOf_sound hs ht.work hg
    rcases hb with rfl | rfl
    · exact ht.work.hold (fun id hid => hid) rfl ha (hsound.mono rfl rfl (Nat.le_add_right _ _)) hfollows
    · exact ht.work.hold (fun id hid => hid) rfl ha (hsound.withCounter.mono rfl rfl (Nat.le_add_right _ _)) hfollows
  | @enter a _ hm hc hrequest hconcurrency hheld hrows =>
    obtain ⟨account, ha, hsound, hfollows⟩ := booksOf_sound hs ht.work hm.lt
    obtain ⟨account', ha', hr', hc'⟩ := hm
    obtain rfl := Option.some.inj (ha.symm.trans ha')
    obtain ⟨b, hb, hcounter⟩ := hc
    rw [booksOf_held hb] at hsound hfollows hrequest hconcurrency hheld
    refine ht.work.hold (fun id hid => hrows ▸ hid) hheld ha (hsound.enter hcounter (hr'.symm ▸ hrequest) (hc'.symm ▸ hconcurrency)) ?_
    rw [hrows]
    by_cases hn : a.r.consumeConcurrency = true
    · exact hfollows.append [a.lease s.serial] (by simp [Admission.enter, hn])
    · exact hfollows.append [] (by simp [Admission.enter, hn])
  | @close g p stamp f hg _ hstamp _ hf =>
    obtain ⟨account, ha, hsound, hfollows⟩ := booksOf_sound hs ht.work hg
    have hcount := openCount_close (b := booksOf s t.work g) (p := p) hstamp
    have hactive := hsound.active
    have hput : f (booksOf s t.work g).activeConcurrency = ((booksOf s t.work g).close p stamp).openCount := by
      rcases hf with hf | hf | ⟨⟨id, rfl⟩, hne, hf⟩
      · exact hf _
      · rw [hf]
        omega
      · have hone := closing_id_length hsound hne
        rw [hf]
        omega
    exact ht.work.hold (fun id hid => List.mem_append_right _ hid) rfl ha
      ((hsound.close hstamp hput).mono rfl rfl (Nat.le_add_right _ _)) (hfollows.close hstamp f)
  | renew _ _ hheld hrows _ => exact ht.work.keep hheld fun id hid => hrows ▸ List.mem_cons_of_mem _ hid
  | @correct g hg _ =>
    obtain ⟨account, ha, hsound, hfollows⟩ := booksOf_sound hs ht.work hg
    exact ht.work.hold (fun id hid => hid) rfl ha (hsound.correct.mono rfl rfl (Nat.le_add_right _ _))
      (hfollows.append [] (by simp [Books.setActive]))

/-- What a statement newly holds, nobody else does; and nothing is let go. -/
theorem Effect.held {others : List Work} {w : Work} (he : Effect s others w w') (g : ℕ) :
    ((w.held.lookup g).isSome → (w'.held.lookup g).isSome) ∧
      ((w'.held.lookup g).isSome → (w.held.lookup g).isSome ∨ counterFree others g = true) := by
  have hhold {g' : ℕ} {b : Books} (hor : (w.held.lookup g').isSome ∨ counterFree others g' = true) :
      ((w.held.lookup g).isSome → ((w.hold g' b).held.lookup g).isSome) ∧
        (((w.hold g' b).held.lookup g).isSome → (w.held.lookup g).isSome ∨ counterFree others g = true) := by
    by_cases e : g = g'
    · subst e
      exact ⟨fun _ => by rw [lookup_hold]; rfl, fun _ => hor⟩
    · rw [lookup_hold_ne e]
      exact ⟨id, Or.inl⟩
  cases he with
  | same hheld _ _ =>
    rw [hheld]
    exact ⟨id, Or.inl⟩
  | take _ hfree _ => exact hhold (.inr hfree)
  | enter _ hc _ _ hheld _ =>
    rw [hheld]
    obtain ⟨b, hb, -⟩ := hc
    exact hhold (.inl (by rw [hb]; rfl))
  | close _ hheld _ _ _ => exact hhold (.inl hheld)
  | renew _ _ hheld _ _ =>
    rw [hheld]
    exact ⟨id, Or.inl⟩
  | correct _ hheld => exact hhold (.inl hheld)

end Statements

/-! ### Actions keep it -/

section Actions

variable {s s' : State}

theorem Sound.grows (hs : Sound s) (h : Grows s s') (htxs : s'.txs = s.txs)
    (hbooks : ∀ (g : ℕ) (account : Account), s'.accounts[g]? = some account → account.books.Sound account.grant s'.serial) :
    Sound s' := by
  refine ⟨hbooks, ?_, ?_, ?_⟩ <;> rw [htxs]
  · exact fun k t ht => (hs.txs k t ht).grows h
  · exact hs.savedHeld
  · exact hs.alone

/-- What is not about accounts, transactions or ids does not matter. -/
theorem Sound.congr (hs : Sound s) (ha : s'.accounts = s.accounts) (htxs : s'.txs = s.txs) (hserial : s'.serial = s.serial) :
    Sound s' :=
  hs.grows (.of_eq ha hserial.ge) htxs (by rw [ha, hserial]; exact hs.books)

/-- One transaction goes on, without holding what another holds. -/
theorem Sound.setTx (hs : Sound s) {k : ℕ} {t t' : Tx} (hk : s.txs[k]? = some t) (ht' : t'.Sound s)
    (hsaved : ∀ g, (t'.saved.held.lookup g).isSome → (t'.work.held.lookup g).isSome)
    (hheld : ∀ g, (t'.work.held.lookup g).isSome → (t.work.held.lookup g).isSome ∨ counterFree (s.others k) g = true) :
    Sound (s.setTx k t') := by
  have hset := fun (j : ℕ) (u : Tx) (hj : (s.txs.set k t')[j]? = some u) => getElem?_set_cases hk hj
  refine ⟨hs.books, fun j u hj => ?_, fun j u g hj => ?_, fun i j u u' g hi hj hu hu' => ?_⟩
  · rcases hset j u hj with ⟨-, rfl⟩ | ⟨-, hj⟩
    · exact ht'.grows (.of_eq rfl (le_refl _))
    · exact (hs.txs j u hj).grows (.of_eq rfl (le_refl _))
  · rcases hset j u hj with ⟨-, rfl⟩ | ⟨-, hj⟩
    · exact hsaved g
    · exact hs.savedHeld j u g hj
  · have hmine : ∀ j u, j ≠ k → s.txs[j]? = some u → (u.work.held.lookup g).isSome → ¬ (t'.work.held.lookup g).isSome := by
      intro j u hne hj hu ht
      rcases hheld g ht with ht | hfree
      · exact hne (hs.alone j k u t g hj hk hu ht)
      · rw [not_held_of_free hfree hne hj] at hu
        cases hu
    rcases hset i u hi with ⟨hik, hit⟩ | ⟨hni, hi⟩ <;> rcases hset j u' hj with ⟨hjk, hjt⟩ | ⟨hnj, hj⟩
    · exact hik.trans hjk.symm
    · exact absurd (hit ▸ hu) (hmine j u' hnj hj hu')
    · exact absurd (hjt ▸ hu') (hmine i u hni hi hu)
    · exact hs.alone i j u u' g hi hj hu hu'

theorem Work.none_sound : Work.none.Sound s := ⟨fun _ _ hb => nomatch hb⟩

theorem Tx.idle_sound : Tx.idle.Sound s := ⟨Work.none_sound, Work.none_sound, fun _ hpc => nomatch hpc⟩

theorem getElem?_install {w : Work} {g : ℕ} :
    (s.install w).accounts[g]? = (s.accounts[g]?).map fun account => { account with books := (w.held.lookup g).getD account.books } := by
  simp [State.install, List.getElem?_mapIdx]

/-- A commit: what the transaction has made of its books is what everyone sees. -/
theorem Sound.commit (hs : Sound s) {k : ℕ} {t : Tx} (hk : s.txs[k]? = some t) :
    Sound ((s.install t.work).setTx k .idle) := by
  have ht := hs.txs k t hk
  have hlen : (s.install t.work).accounts.length = s.accounts.length := by simp [State.install]
  -- what another transaction holds is not installed
  have hother : ∀ {w : Work}, w.Sound s → (∀ g, (w.held.lookup g).isSome → t.work.held.lookup g = none) →
      w.Sound (s.install t.work) := by
    intro w hw hfree
    refine ⟨fun g b hb => ?_⟩
    obtain ⟨account, ha, hsound, hfollows⟩ := hw.books g b hb
    refine ⟨account, ?_, hsound, hfollows⟩
    rw [getElem?_install, ha, hfree g (by rw [hb]; rfl)]
    rfl
  have hmatches : ∀ a : Admission, a.Matches s → a.Matches (s.install t.work) := by
    rintro a ⟨account, ha, hr, hc⟩
    exact ⟨{ account with books := (t.work.held.lookup a.r.grantId).getD account.books }, by rw [getElem?_install, ha]; rfl, hr, hc⟩
  have hset := fun (j : ℕ) (u : Tx) (hj : (s.txs.set k .idle)[j]? = some u) => (getElem?_set_cases hk hj).imp_left And.right
  refine ⟨fun g account ha => ?_, fun j u hj => ?_, fun j u g hj => ?_, fun i j u u' g hi hj hu hu' => ?_⟩
  · have ha' : (s.install t.work).accounts[g]? = some account := ha
    rw [getElem?_install] at ha'
    obtain ⟨account', hacc, rfl⟩ := Option.map_eq_some_iff.mp ha'
    rcases hl : t.work.held.lookup g with _ | b
    · exact hs.books g account' hacc
    · obtain ⟨account'', ha'', hsound, -⟩ := ht.work.books g b hl
      obtain rfl := Option.some.inj (hacc.symm.trans ha'')
      exact hsound
  · rcases hset j u hj with rfl | ⟨hne, hj⟩
    · exact Tx.idle_sound
    · have hu := hs.txs j u hj
      have hfree : ∀ g, (u.work.held.lookup g).isSome → t.work.held.lookup g = none := by
        intro g hg
        by_contra hc
        exact hne (hs.alone j k u t g hj hk hg (Option.isSome_iff_ne_none.mpr hc))
      have hinstalled : u.Sound (s.install t.work) :=
        ⟨hother hu.work hfree, hother hu.saved fun g hg => hfree g (hs.savedHeld j u g hj hg), fun pc hc =>
          (hu.call pc hc).of hmatches fun g hg => hlen.symm ▸ hg⟩
      exact hinstalled.grows (.of_eq rfl (le_refl _))
  · rcases hset j u hj with rfl | ⟨-, hj⟩
    · exact id
    · exact hs.savedHeld j u g hj
  · rcases hset i u hi with rfl | ⟨-, hi⟩
    · cases hu
    rcases hset j u' hj with rfl | ⟨-, hj⟩
    · cases hu'
    · exact hs.alone i j u u' g hi hj hu hu'

theorem start_sound (c : Call) (now : ℤ) (w : Work) : (c.start now).Sound s w := by
  cases c <;> simp only [Call.start] <;> (try split) <;> exact trivial

/-- **Every action keeps the books sound.** -/
theorem Sound.step {a : Action} (hs : Sound s) (h : step s a s') : Sound s' := by
  cases a with
  | tick ms =>
    cases h
    exact hs.congr rfl rfl rfl
  | setOperators operators =>
    cases h
    exact hs.congr rfl rfl rfl
  | createTarget userId classification =>
    cases h
    exact hs.congr rfl rfl rfl
  | classify targetId classification =>
    cases h
    exact hs.congr rfl rfl rfl
  | createScan userId targetId =>
    cases h
    exact hs.congr rfl rfl rfl
  | authorize grant =>
    simp only [Safety.step, next] at h
    split at h <;> cases h
    rename_i hbudget
    refine hs.grows ⟨fun g account ha => ⟨account, ?_, rfl, rfl, rfl⟩, le_refl _⟩ rfl fun g account ha => ?_
    · exact (List.getElem?_append_left (List.getElem?_eq_some_iff.mp ha).1).trans ha
    · rcases List.mem_append.mp (List.mem_of_getElem? ha) with hmem | hmem
      · obtain ⟨i, hi⟩ := List.mem_iff_getElem?.mp hmem
        exact hs.books i account hi
      · obtain rfl := List.mem_singleton.mp hmem
        exact .empty (by show 0 ≤ grant.requestBudget; omega) (by show 0 ≤ grant.concurrencyBudget; omega)
  | revoke g =>
    cases h
    refine hs.grows ⟨fun g' account ha => ?_, le_refl _⟩ rfl fun g' account ha => ?_
    · by_cases e : g = g'
      · subst e
        exact ⟨{ account with grant := { account.grant with revokedAt := account.grant.revokedAt.or (some s.clock) } },
          by simp [ha], rfl, rfl, rfl⟩
      · exact ⟨account, by simp [ha, e], rfl, rfl, rfl⟩
    · have ha' : (s.accounts.modify g _)[g']? = some account := ha
      rw [List.getElem?_modify] at ha'
      obtain ⟨account', hacc, he⟩ := Option.map_eq_some_iff.mp ha'
      have hsound := hs.books g' account' hacc
      split at he <;> cases he
      · exact hsound.mono rfl rfl (le_refl _)
      · exact hsound
  | connect =>
    cases h
    have happend := fun (j : ℕ) (u : Tx) (hj : (s.txs ++ [Tx.idle])[j]? = some u) => getElem?_concat_cases hj
    refine ⟨hs.books, fun j u hj => ?_, fun j u g hj => ?_, fun i j u u' g hi hj hu hu' => ?_⟩
    · rcases happend _ _ hj with rfl | hj
      · exact Tx.idle_sound
      · exact (hs.txs j u hj).grows (.of_eq rfl (le_refl _))
    · rcases happend _ _ hj with rfl | hj
      · exact id
      · exact hs.savedHeld j u g hj
    · rcases happend _ _ hi with rfl | hi
      · cases hu
      rcases happend _ _ hj with rfl | hj
      · cases hu'
      · exact hs.alone i j u u' g hi hj hu hu'
  | call k c =>
    obtain ⟨t, hk, h⟩ := Option.bind_eq_some_iff.mp h
    split at h <;> cases h
    have ht := hs.txs k t hk
    exact hs.setTx hk ⟨ht.work, ht.work, fun pc hpc => by cases hpc; exact start_sound c _ _⟩ (fun g hg => hg) fun g hg => Or.inl hg
  | run k =>
    obtain ⟨t, hk, h⟩ := Option.bind_eq_some_iff.mp h
    obtain ⟨pc, hpc, h⟩ := Option.bind_eq_some_iff.mp h
    obtain ⟨⟨w, pc'⟩, he, h⟩ := Option.bind_eq_some_iff.mp h
    cases h
    have ht := hs.txs k t hk
    obtain ⟨heffect, hpc'⟩ := exec_does (ht.call pc hpc) he
    have hgrows : Grows s { s with serial := s.serial + 2 } := .of_eq rfl (Nat.le_add_right _ _)
    have hs' : Sound { s with serial := s.serial + 2 } := hs.grows hgrows rfl fun g account ha =>
      (hs.books g account ha).mono rfl rfl (Nat.le_add_right _ _)
    refine hs'.setTx (t := t) hk ⟨heffect.sound hs ht, ht.saved.grows hgrows, fun pc hpc => ?_⟩ (fun g hg => ?_) fun g hg => ?_
    · cases hpc
      exact hpc'.of (fun _ hm => hm.grows hgrows) fun _ => hgrows.lt
    · exact (heffect.held g).1 (hs.savedHeld k t g hk hg)
    · exact (heffect.held g).2 hg
  | commit k =>
    obtain ⟨t, hk, h⟩ := Option.bind_eq_some_iff.mp h
    split at h <;> cases h
    exact hs.commit hk
  | rollback k =>
    obtain ⟨t, hk, h⟩ := Option.bind_eq_some_iff.mp h
    cases h
    exact hs.setTx hk Tx.idle_sound (fun g hg => hg) (fun g hg => nomatch hg)
  | rescue k =>
    obtain ⟨t, hk, h⟩ := Option.bind_eq_some_iff.mp h
    cases h
    have ht := hs.txs k t hk
    exact hs.setTx hk ⟨ht.saved, ht.saved, fun pc hpc => nomatch hpc⟩ (fun g hg => hg) fun g hg => Or.inl (hs.savedHeld k t g hk hg)

theorem sound_init : Sound .init :=
  ⟨(fun _ _ ha => nomatch ha), (fun _ _ hk => nomatch hk), (fun _ _ _ hk => nomatch hk), fun _ _ _ _ _ hj => nomatch hj⟩

theorem sound_reachable (h : Reaches step .init s) : Sound s := h.inv sound_init fun _ _ _ => Sound.step

/-- What an action makes of the rows of a grant. -/
theorem step_follows {a : Action} (hs : Sound s) (h : step s a s') {g : ℕ} {account account' : Account}
    (ha : s.accounts[g]? = some account) (ha' : s'.accounts[g]? = some account') :
    ∃ rows, account.books.Follows rows account'.books := by
  have hsame : account'.books = account.books → ∃ rows, account.books.Follows rows account'.books := fun e =>
    e ▸ ⟨[], .refl _ _⟩
  have hcongr (hacc : s'.accounts = s.accounts) : ∃ rows, account.books.Follows rows account'.books := by
    rw [hacc, ha] at ha'
    cases ha'
    exact hsame rfl
  cases a with
  | tick ms | setOperators operators | createTarget userId classification | classify targetId classification
    | createScan userId targetId | connect =>
    cases h
    exact hcongr rfl
  | authorize grant =>
    simp only [Safety.step, next] at h
    split at h <;> cases h
    refine hsame ?_
    have hlt := (List.getElem?_eq_some_iff.mp ha).1
    rw [List.getElem?_append_left hlt, ha] at ha'
    cases ha'
    rfl
  | revoke g' =>
    cases h
    refine hsame ?_
    have ha'' : (s.accounts.modify g' _)[g]? = some account' := ha'
    rw [List.getElem?_modify] at ha''
    obtain ⟨account'', hacc, rfl⟩ := Option.map_eq_some_iff.mp ha''
    obtain rfl := Option.some.inj (ha.symm.trans hacc)
    split <;> rfl
  | call k c =>
    obtain ⟨t, -, h⟩ := Option.bind_eq_some_iff.mp h
    split at h <;> cases h
    exact hcongr rfl
  | run k =>
    obtain ⟨t, -, h⟩ := Option.bind_eq_some_iff.mp h
    obtain ⟨pc, -, h⟩ := Option.bind_eq_some_iff.mp h
    obtain ⟨⟨w, pc'⟩, -, h⟩ := Option.bind_eq_some_iff.mp h
    cases h
    exact hcongr rfl
  | commit k =>
    obtain ⟨t, hk, h⟩ := Option.bind_eq_some_iff.mp h
    split at h <;> cases h
    have ha'' : (s.install t.work).accounts[g]? = some account' := ha'
    rw [getElem?_install, ha] at ha''
    cases ha''
    rcases hl : t.work.held.lookup g with _ | b
    · exact ⟨[], .refl _ _⟩
    · obtain ⟨account', hacc, -, hfollows⟩ := (hs.txs k t hk).work.books g b hl
      obtain rfl := Option.some.inj (ha.symm.trans hacc)
      exact ⟨_, hfollows⟩
  | rollback k =>
    obtain ⟨t, -, h⟩ := Option.bind_eq_some_iff.mp h
    cases h
    exact hcongr rfl
  | rescue k =>
    obtain ⟨t, -, h⟩ := Option.bind_eq_some_iff.mp h
    cases h
    exact hcongr rfl

end Actions

/-! ### Budget accounting -/

/-- **The counters of every grant agree with its rows and keep to its budgets**, in every state reached; and with every
action the one of leases goes down once for each lease that is closed, which then stays as it is. -/
theorem budget_accounting {s : State} (h : Reaches step .init s) :
    (∀ (g : ℕ) (account : Account), s.accounts[g]? = some account →
      account.books.activeConcurrency = account.books.openCount ∧
      account.books.activeConcurrency ≤ account.grant.concurrencyBudget ∧
      account.books.consumedRequests = account.books.consumptions.length ∧
      account.books.consumedRequests ≤ account.grant.requestBudget) ∧
    ∀ a s', step s a s' → ∀ (g : ℕ) (account account' : Account), s.accounts[g]? = some account → s'.accounts[g]? = some account' →
      (∀ l ∈ account.books.leases, l.isOpen = false → l ∈ account'.books.leases) ∧
      account'.books.activeConcurrency + closedCount account.books account'.books =
        account.books.activeConcurrency + openedCount account.books account'.books := by
  have hs := sound_reachable h
  refine ⟨fun g account ha => ?_, fun a s' hstep g account account' ha ha' => ?_⟩
  · have hb := hs.books g account ha
    exact ⟨hb.active, hb.activeLe, hb.consumed, hb.consumedLe⟩
  · obtain ⟨rows, hfollows⟩ := step_follows hs hstep ha ha'
    have hb := (hs.books g account ha).active
    have hb' := ((hs.step hstep).books g account' ha').active
    have hcount := openCount_follows hfollows
    exact ⟨fun l hl hc => hfollows.closed hl hc, by omega⟩

/-- A request and a lease are asked for. -/
def firstRequest : AdmitRequest := ⟨0, 0, "unit-1", none, "key-1", true, true⟩

/-- A target and a grant for it, and a lease that is taken. -/
def oneLease : List Action :=
  [.createTarget 7 (some .STAGING), .authorize ⟨0, 7, [.STAGING], 2, 1, 1000000, none⟩, .connect,
    .call 0 (.admission firstRequest)] ++ List.replicate 17 (.run 0) ++ [.commit 0]

/-- The lease is released twice, by its holder and by authority. -/
def releasedTwice : List Action :=
  oneLease ++ [.call 0 (.releaseByToken 32 33)] ++ List.replicate 3 (.run 0) ++ [.commit 0, .call 0 (.releaseByExecution "unit-1")] ++
    List.replicate 2 (.run 0) ++ [.commit 0]

theorem budget_accounting_released : ∃ s, Reaches step .init s ∧
    (s.accounts.map (·.books)) = [⟨some ⟨1, 0⟩, [⟨32, 7, 0, none, "unit-1", "key-1", 33, some 0, none⟩], [⟨7, "unit-1", "key-1"⟩]⟩] ∧
    ∀ (g : ℕ) (account : Account), s.accounts[g]? = some account →
      account.books.activeConcurrency = account.books.openCount ∧
      account.books.activeConcurrency ≤ account.grant.concurrencyBudget ∧
      account.books.consumedRequests = account.books.consumptions.length ∧
      account.books.consumedRequests ≤ account.grant.requestBudget := by
  obtain ⟨s, hs, hp⟩ := Reaches.exists_of_play next (fun _ _ => true) .init releasedTwice
    (fun s => (s.accounts.map (·.books)) =
      [⟨some ⟨1, 0⟩, [⟨32, 7, 0, none, "unit-1", "key-1", 33, some 0, none⟩], [⟨7, "unit-1", "key-1"⟩]⟩]) (by decide)
  exact ⟨s, hs.of_guarded, hp, (budget_accounting hs.of_guarded).1⟩

end WebAudit.Safety
