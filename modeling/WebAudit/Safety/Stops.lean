import WebAudit.Safety.Locks

/-!
# What a stop stops

While a stop is pending nobody is admitted behind it: an admission has the lock of the scope when it
looks, and who changes the stop needs that lock. When a stop is recorded `STOPPED` nothing in its
scope is live, and what is not live then never is again, in every run in which renewals are in time
(`timely`): a renewal reads the clock when it is called, and its update and its commit come later.
-/

namespace WebAudit.Safety

open WebAudit.Lib

/-! ### In time -/

/-- No renewal takes effect, or commits, after its lease has expired. -/
def timely (s : State) : Action → Bool
  | .run k => (s.txs[k]?).all fun t => t.call.all fun
    | .renewUpdate x => decide (expiryOf s t.work x.lease.id ≤ x.now) || decide (s.clock < expiryOf s t.work x.lease.id)
    | _ => true
  | .commit k => (s.txs[k]?).all fun t => t.work.expiries.all fun p =>
    !((leasesOf s .none).any fun q => decide (q.2.id = p.1)) || decide (s.clock < expiryOf s .none p.1)
  | _ => true

section Leases

variable {s s' : State} {w : Work} {k g : ℕ} {t : Tx} {l : AdmissionLease} {key : StopKey}

theorem committed_lt (h : l ∈ (booksOf s .none g).leases) : g < s.accounts.length := by
  by_contra hge
  unfold booksOf at h
  rw [show Work.none.held.lookup g = none from rfl, List.getElem?_eq_none (by omega)] at h
  cases h

theorem mem_leasesOf {p : ℕ × AdmissionLease} : p ∈ leasesOf s w ↔ p.1 < s.accounts.length ∧ p.2 ∈ (booksOf s w p.1).leases := by
  unfold leasesOf
  rw [List.mem_flatMap]
  constructor
  · rintro ⟨g, hg, hp⟩
    obtain ⟨l, hl, rfl⟩ := List.mem_map.mp hp
    exact ⟨List.mem_range.mp hg, hl⟩
  · rintro ⟨hg, hp⟩
    exact ⟨p.1, List.mem_range.mpr hg, List.mem_map.mpr ⟨p.2, hp, rfl⟩⟩

theorem booksOf_lt (hw : w.Sound s) (h : l ∈ (booksOf s w g).leases) : g < s.accounts.length := by
  rcases hl : w.held.lookup g with _ | b
  · rw [booksOf_unheld hl] at h
    exact committed_lt h
  · obtain ⟨account, ha, -⟩ := hw.books g b hl
    exact (List.getElem?_eq_some_iff.mp ha).1

theorem not_live_iff {at' : ℤ} : isLive s w at' l = false ↔ l.isOpen = true → expiryOf s w l.id ≤ at' := by
  unfold isLive
  cases l.isOpen <;> simp

/-- A renewal that commits in time has found its lease live. -/
theorem timely_commit (h : timely s (.commit k) = true) (hk : s.txs[k]? = some t) {e : ℤ} (he : t.work.expiries.lookup l.id = some e)
    (hl : ∃ c ∈ (booksOf s .none g).leases, c.id = l.id) : s.clock < expiryOf s .none l.id := by
  obtain ⟨c, hc, hid⟩ := hl
  simp only [timely, hk, Option.all_some] at h
  obtain ⟨l₁, l₂, hsplit, -⟩ := List.lookup_eq_some_iff.mp he
  have hmem : (l.id, e) ∈ t.work.expiries := by rw [hsplit]; simp
  have hp := List.all_eq_true.mp h _ hmem
  have hany : ((leasesOf s .none).any fun q => decide (q.2.id = l.id)) = true :=
    List.any_eq_true.mpr ⟨(g, c), mem_leasesOf.mpr ⟨committed_lt hc, hc⟩, by simpa using hid⟩
  rw [hany] at hp
  simpa using hp

theorem expiryOf_install : expiryOf (s.install t.work) w l.id =
    ((w.expiries.lookup l.id).or ((t.work.expiries.lookup l.id).or (s.expiry.lookup l.id))).getD 0 := by
  unfold expiryOf State.install
  rw [List.lookup_append]

/-- What is not live a commit does not revive. -/
theorem dead_install (h : timely s (.commit k) = true) (hk : s.txs[k]? = some t) (hdead : isLive s w s.clock l = false)
    (hl : (∃ c ∈ (booksOf s .none g).leases, c.id = l.id) ∨ (w.expiries.lookup l.id).isSome) :
    isLive (s.install t.work) w s.clock l = false := by
  rw [not_live_iff] at hdead ⊢
  intro hopen
  have hexpired := hdead hopen
  rw [expiryOf_install]
  unfold expiryOf at hexpired
  rcases hown : w.expiries.lookup l.id with _ | e
  · rw [hown, Option.none_or] at hexpired
    rw [Option.none_or]
    rcases hnew : t.work.expiries.lookup l.id with _ | e
    · exact hexpired
    · have hlt := timely_commit h hk hnew (hl.resolve_right (by simp [hown]))
      unfold expiryOf at hlt
      rw [show Work.none.expiries.lookup l.id = none from rfl, Option.none_or] at hlt
      omega
  · rw [hown] at hexpired
    exact hexpired

end Leases

/-! ### Nothing is live -/

/-- Nothing in the scope is live, as the transaction sees it. -/
def Still (s : State) (w : Work) (key : StopKey) : Prop :=
  ∀ g, ∀ l ∈ (booksOf s w g).leases, key.covers g l = true → isLive s w s.clock l = false

/-- Nothing that is committed and in the scope of a stop that the transaction has recorded `STOPPED` is live, as it sees it. -/
def Work.Stopped (s : State) (w : Work) : Prop :=
  ∀ key x, w.stops.find? (·.key = key) = some x → x.state = .STOPPED → s.stop key ≠ some x →
    ∀ g, ∀ l ∈ (booksOf s w g).leases, key.covers g l = true → (∃ c ∈ (booksOf s .none g).leases, c.id = l.id) →
      isLive s w s.clock l = false

/-- Before a stop is recorded `STOPPED`, nothing in its scope is live. -/
structure Tx.Calm (s : State) (t : Tx) : Prop where
  call : ∀ pc key, t.call = some pc → pc.writes = some key → Still s t.work key
  work : t.work.Stopped s
  saved : t.saved.Stopped s

def Calm (s : State) : Prop := ∀ (k : ℕ) (t : Tx), s.txs[k]? = some t → t.Calm s

/-- An admission has been granted. -/
def Pc.isGranted : Pc → Bool
  | .admitted _ _ (.granted ..) => true
  | _ => false

section Calm

variable {s s' : State} {w w' : Work} {k g : ℕ} {t : Tx} {l : AdmissionLease} {key : StopKey} {others : List Work} {pc pc' : Pc}

/-- What is seen to be live nowhere lets a stop be recorded. -/
theorem still_of_scan (hw : w.Sound s) (h : scopeHasLiveExecution s w key = false) : Still s w key := by
  intro g l hl hcovers
  unfold scopeHasLiveExecution at h
  have hnone := List.any_eq_false.mp h (g, l) (mem_leasesOf.mpr ⟨booksOf_lt hw hl, hl⟩)
  simpa [hcovers] using hnone

theorem admit_writes (h : admitStep s others w pc = some (w', pc')) : pc'.writes = none := by
  unfold admitStep refuse at h
  split at h <;> (try dsimp only at h) <;> (repeat' split at h) <;> cases h <;> rfl

theorem renew_writes (h : renewStep s others w pc = some (w', pc')) : pc'.writes = none ∧ pc'.isGranted = false := by
  unfold renewStep at h
  split at h <;> (repeat' split at h) <;> cases h <;> exact ⟨rfl, rfl⟩

theorem release_writes (h : releaseStep s others w pc = some (w', pc')) : pc'.writes = none ∧ pc'.isGranted = false := by
  unfold releaseStep at h
  split at h <;> (try dsimp only at h) <;> (repeat' split at h) <;> cases h <;> exact ⟨rfl, rfl⟩

theorem reclaim_writes (h : reclaimStep s others w pc = some (w', pc')) : pc'.writes = none ∧ pc'.isGranted = false := by
  unfold reclaimStep at h
  split at h <;> (try dsimp only at h) <;> (repeat' split at h) <;> cases h <;> exact ⟨rfl, rfl⟩

theorem stop_writes (h : stopStep s others w pc = some (w', pc')) :
    pc'.writes = none ∨ ∃ key, pc'.writes = some key ∧ w' = w ∧ scopeHasLiveExecution s w key = false := by
  unfold stopStep selectStop writeStop at h
  split at h
  case h_8 k =>
    cases h
    split
    · exact .inl rfl
    · rename_i hlive
      exact .inr ⟨k.key, rfl, rfl, by simpa using hlive⟩
  case h_14 x k keys =>
    cases h
    split
    · exact .inl rfl
    · rename_i hlive
      exact .inr ⟨k.key, rfl, rfl, by simpa using hlive⟩
  all_goals
    left
    try dsimp only at h
    (repeat' split at h) <;> cases h <;> rfl

theorem stop_granted (h : stopStep s others w pc = some (w', pc')) : pc'.isGranted = false := by
  unfold stopStep selectStop writeStop at h
  split at h <;> (try dsimp only at h) <;> (repeat' split at h) <;> cases h <;> rfl

/-- A stop is about to be recorded only where nothing is live. -/
theorem exec_writes (hw : w.Sound s) (h : exec s others w pc = some (w', pc')) (hkey : pc'.writes = some key) : Still s w' key := by
  have hnone (hno : pc'.writes = none) : Still s w' key := by
    rw [hno] at hkey
    cases hkey
  unfold exec at h
  rcases Option.or_eq_some_iff.mp h with h | ⟨-, h⟩
  · exact hnone (admit_writes h)
  rcases Option.or_eq_some_iff.mp h with h | ⟨-, h⟩
  · exact hnone (renew_writes h).1
  rcases Option.or_eq_some_iff.mp h with h | ⟨-, h⟩
  · exact hnone (release_writes h).1
  rcases Option.or_eq_some_iff.mp h with h | ⟨-, h⟩
  · exact hnone (reclaim_writes h).1
  · rcases stop_writes h with hno | ⟨key', hkey', rfl, hscan⟩
    · exact hnone hno
    · obtain rfl := Option.some.inj (hkey'.symm.trans hkey)
      exact still_of_scan hw hscan

/-- A statement keeps it, if a renewal that it makes is in time. -/
theorem Touch.stopped (h : Touch s others w pc w') (hs : Sound s)
    (hwrites : ∀ key, pc.writes = some key → Still s w key)
    (htimely : ∀ x, pc = .renewUpdate x → expiryOf s w x.lease.id ≤ x.now ∨ s.clock < expiryOf s w x.lease.id)
    (hst : w.Stopped s) : w'.Stopped s := by
  -- an open lease that was there, with the same time, is as dead as before
  have hkept (hstops : w'.stops = w.stops)
      (hleases : ∀ g l, l ∈ (booksOf s w' g).leases → l.isOpen = true → (∃ c ∈ (booksOf s .none g).leases, c.id = l.id) →
        l ∈ (booksOf s w g).leases ∧ (isLive s w s.clock l = false → expiryOf s w' l.id ≤ s.clock)) : w'.Stopped s := by
    intro key x hx hstate hne g l hl hcovers hcommitted
    rw [not_live_iff]
    intro hopen
    obtain ⟨hold, hdead⟩ := hleases g l hl hopen hcommitted
    exact hdead (hst key x (hstops ▸ hx) hstate hne g l hold hcovers hcommitted)
  have hsame {l : AdmissionLease} (hexpiries : w'.expiries.lookup l.id = w.expiries.lookup l.id) (hopen : l.isOpen = true)
      (hdead : isLive s w s.clock l = false) : expiryOf s w' l.id ≤ s.clock := by
    have hexpired := not_live_iff.mp hdead hopen
    unfold expiryOf at hexpired ⊢
    rwa [hexpiries]
  cases h with
  | same _ hstops hexpiries hleases =>
    exact hkept hstops fun g l hl hopen _ => ⟨hleases g l hl hopen, hsame (by rw [hexpiries]) hopen⟩
  | @enter a _ _ _ hstops hexpiries hleases =>
    refine hkept hstops fun g l hl hopen ⟨c, hc, hid⟩ => ?_
    -- what is committed has an id that has been given
    have hlt : l.id < s.serial := by
      have hg := committed_lt hc
      unfold booksOf at hc
      rw [show Work.none.held.lookup g = none from rfl, List.getElem?_eq_getElem hg] at hc
      exact hid ▸ (hs.books g _ (List.getElem?_eq_getElem hg)).idsLt c hc
    refine ⟨(hleases g l hl hopen).resolve_right ?_, hsame ?_ hopen⟩
    · rintro ⟨-, rfl⟩
      simp [Admission.lease] at hlt
    · have hne : (l.id == s.serial) = false := by simpa using Nat.ne_of_lt hlt
      rw [hexpiries, List.lookup_cons, hne]
  | @renew x _ hpc' _ hstops hexpiries hheld hlive =>
    refine hkept hstops fun g l hl hopen _ => ?_
    have hold : l ∈ (booksOf s w g).leases := by
      unfold booksOf at hl ⊢
      rwa [hheld] at hl
    refine ⟨hold, fun hdead => ?_⟩
    by_cases hid : l.id = x.lease.id
    · -- the renewal is in time, so the lease has not expired
      have hexpired := not_live_iff.mp hdead hopen
      obtain ⟨l', -, hp⟩ := List.any_eq_true.mp hlive
      simp only [isLive, Bool.and_eq_true, decide_eq_true_eq] at hp
      have hnow := hp.2.2
      rw [hp.1.1] at hnow
      rw [hid] at hexpired
      rcases htimely x hpc' with hle | hlt <;> omega
    · have hne : (l.id == x.lease.id) = false := by simpa using hid
      exact hsame (by rw [hexpiries, List.lookup_cons, hne]) hopen hdead
  | lock _ => exact hst
  | @hold y _ hy =>
    intro key x hx hstate hne
    by_cases e : key = y.key
    · subst e
      rw [find_holdStop] at hx
      obtain rfl := Option.some.inj hx
      rw [stopOf_stop] at hy
      rcases hfind : w.stops.find? (·.key = y.key) with _ | z
      · rw [hfind] at hy
        exact absurd hy hne
      · rw [hfind] at hy
        exact hst y.key y (hfind.trans hy) hstate hne
    · rw [find_holdStop_ne e] at hx
      exact hst key x hx hstate hne
  | @write y _ _ _ hstopped =>
    intro key x hx hstate hne
    by_cases e : key = y.key
    · subst e
      rw [find_holdStop] at hx
      obtain rfl := Option.some.inj hx
      exact fun g l hl hcovers _ => hwrites _ (hstopped hstate) g l hl hcovers
    · rw [find_holdStop_ne e] at hx
      exact hst key x hx hstate hne

/-- An open lease whose id is committed is the one that is committed. -/
theorem open_committed (hs : Sound s) (hk : s.txs[k]? = some t) (hl : l ∈ (booksOf s t.work g).leases) (hopen : l.isOpen = true)
    (hc : ∃ c ∈ (booksOf s .none g).leases, c.id = l.id) : l ∈ (booksOf s .none g).leases := by
  obtain ⟨c, hmem, hid⟩ := hc
  obtain ⟨account, ha, hsound, hfollows⟩ := booksOf_sound hs (hs.txs k t hk).work (committed_lt hmem)
  rw [booksOf_free rfl ha] at hmem ⊢
  obtain ⟨l', hl', hkept⟩ := hfollows.kept hmem
  have hsameId : l'.id = c.id := by
    rcases hkept with rfl | ⟨-, -, hid', -⟩
    · rfl
    · exact hid'
  obtain rfl := List.inj_on_of_nodup_map hsound.ids hl' hl (hsameId.trans hid)
  rcases hkept with rfl | ⟨-, hclosed, -⟩
  · exact hmem
  · rw [hclosed] at hopen
    cases hopen

/-- A lease in the scope of a stop that another transaction has locked is what it was before the commit. -/
theorem view_install (hs : Sound s) (hlocked : Locked s) (hb : Behind s) (hk : s.txs[k]? = some t) {j : ℕ} {u : Tx}
    (hj : s.txs[j]? = some u) (hne : j ≠ k) (hheld : ∀ g, (w.held.lookup g).isSome → (u.work.held.lookup g).isSome) (hw : w.Behind s)
    (hlock : (LockKey.stop key, false) ∈ u.work.locks) (hl : l ∈ (booksOf (s.install t.work) w g).leases) (hopen : l.isOpen = true)
    (hcovers : key.covers g l = true) :
    l ∈ (booksOf s w g).leases ∧ ((∃ c ∈ (booksOf s .none g).leases, c.id = l.id) ∨ (w.expiries.lookup l.id).isSome) ∧
      ((∃ c ∈ (booksOf (s.install t.work) .none g).leases, c.id = l.id) → ∃ c ∈ (booksOf s .none g).leases, c.id = l.id) := by
  have ht := (hs.txs k t hk).work
  rw [booksOf_install ht] at hl
  rw [committed_install ht]
  split at hl
  · rename_i hg
    have hfree : t.work.held.lookup g = none := by
      by_contra hc
      exact hne (hs.alone j k u t g hj hk (hheld g hg) (Option.isSome_iff_ne_none.mpr hc))
    rw [booksOf_unheld hfree]
    refine ⟨hl, ?_, fun hc => hc⟩
    by_cases hc : ∃ c ∈ (booksOf s .none g).leases, c.id = l.id
    · exact .inl hc
    · exact .inr (hw g l ⟨⟨hl, hopen⟩, fun c hmem hid => hc ⟨c, hmem, hid⟩⟩).expires
  · rename_i hg
    have hunheld : booksOf s w g = booksOf s .none g := booksOf_unheld (Option.not_isSome_iff_eq_none.mp hg)
    by_cases hc : ∃ c ∈ (booksOf s .none g).leases, c.id = l.id
    · have hold := open_committed hs hk hl hopen hc
      exact ⟨hunheld ▸ hold, .inl ⟨l, hold, rfl⟩, fun _ => ⟨l, hold, rfl⟩⟩
    · -- the lease is new, and the other transaction has a lock of the scope
      have hfresh := (hb k t hk).1 g l ⟨⟨hl, hopen⟩, fun c hmem hid => hc ⟨c, hmem, hid⟩⟩
      obtain ⟨shared, hp⟩ := hfresh.locked key (covers_iff.mp hcovers)
      exact absurd rfl (hlocked.excluded j k u t _ _ hne hj hk hlock hp)

/-- A commit of another transaction changes nothing that this one has looked at. -/
theorem Calm.install (hs : Sound s) (hlocked : Locked s) (hb : Behind s) (hk : s.txs[k]? = some t)
    (htimely : timely s (.commit k) = true) {j : ℕ} {u : Tx} (hj : s.txs[j]? = some u) (hne : j ≠ k) (hu : u.Calm s) :
    u.Calm (s.install t.work) := by
  have hdead {w : Work} {key : StopKey} {g : ℕ} {l : AdmissionLease}
      (hheld : ∀ g, (w.held.lookup g).isSome → (u.work.held.lookup g).isSome) (hw : w.Behind s)
      (hlock : (LockKey.stop key, false) ∈ u.work.locks) (hl : l ∈ (booksOf (s.install t.work) w g).leases)
      (hcovers : key.covers g l = true)
      (hstill : l ∈ (booksOf s w g).leases → ((∃ c ∈ (booksOf (s.install t.work) .none g).leases, c.id = l.id) →
        ∃ c ∈ (booksOf s .none g).leases, c.id = l.id) → isLive s w s.clock l = false) : isLive (s.install t.work) w s.clock l = false := by
    by_cases hopen : l.isOpen = true
    · obtain ⟨hold, hown, hcommitted⟩ := view_install hs hlocked hb hk hj hne hheld hw hlock hl hopen hcovers
      exact dead_install htimely hk (hstill hold hcommitted) hown
    · rw [not_live_iff]
      exact fun h => absurd h hopen
  obtain ⟨hwork, hsaved⟩ := hb j u hj
  have hlockOf {w : Work} {key : StopKey} {x : KillSwitchState} (hrows : w.Rows s)
      (hsub : ∀ p ∈ w.locks, p ∈ u.work.locks) (hx : w.stops.find? (·.key = key) = some x)
      (hsame : (s.install t.work).stop key = s.stop key) (hne : (s.install t.work).stop key ≠ some x) :
      (LockKey.stop key, false) ∈ u.work.locks :=
    hsub _ ((hrows key x hx).resolve_left fun he => hne (hsame.trans he))
  obtain ⟨hrows, hrowsSaved⟩ := hlocked.rows j u hj
  refine ⟨fun pc key hpc hkey g l hl hcovers => ?_, fun key x hx hstate hne' g l hl hcovers hc => ?_,
    fun key x hx hstate hne' g l hl hcovers hc => ?_⟩
  · have hlock : (LockKey.stop key, false) ∈ u.work.locks := by
      have hpcl := hlocked.call j u pc hj hpc
      cases pc <;> cases hkey <;> exact hpcl.1
    exact hdead (fun _ hg => hg) hwork hlock hl hcovers fun hold _ => hu.call pc key hpc hkey g l hold hcovers
  · have hsame := hlocked.commit_stop hk hj hne (.inr ⟨x, hx⟩)
    have hlock := hlockOf hrows (fun _ hp => hp) hx hsame hne'
    exact hdead (fun _ hg => hg) hwork hlock hl hcovers fun hold hback =>
      hu.work key x hx hstate (hsame ▸ hne') g l hold hcovers (hback hc)
  · have hsame := hlocked.commit_stop hk hj hne (.inr (hlocked.savedStops j u key hj ⟨x, hx⟩))
    have hlock := hlockOf hrowsSaved (fun p hp => hlocked.savedLocks j u p hj hp) hx hsame hne'
    exact hdead (fun g hg => hs.savedHeld j u g hj hg) hsaved hlock hl hcovers fun hold hback =>
      hu.saved key x hx hstate (hsame ▸ hne') g l hold hcovers (hback hc)

theorem Work.Stopped.none : Work.none.Stopped s := fun _ _ hx => nomatch hx

theorem Tx.Calm.idle : Tx.idle.Calm s := ⟨fun _ _ hpc => (nomatch hpc), Work.Stopped.none, Work.Stopped.none⟩

/-- Time goes on, and what else there is happens. -/
theorem Tx.Calm.aside (h : t.Calm s) (hbooks : ∀ w g, booksOf s' w g = booksOf s w g) (hstops : s'.stops = s.stops)
    (hexpiry : s'.expiry = s.expiry) (hclock : s.clock ≤ s'.clock) : t.Calm s' := by
  have hdead {w : Work} {l : AdmissionLease} (h : isLive s w s.clock l = false) : isLive s' w s'.clock l = false := by
    rw [not_live_iff] at h ⊢
    intro hopen
    have hle := h hopen
    unfold expiryOf at hle ⊢
    rw [hexpiry]
    omega
  have hstopped {w : Work} (hw : w.Stopped s) : w.Stopped s' := by
    intro key x hx hstate hne g l hl hcovers hc
    rw [hbooks] at hl hc
    rw [State.stop, hstops] at hne
    exact hdead (hw key x hx hstate hne g l hl hcovers hc)
  refine ⟨fun pc key hpc hkey g l hl hcovers => ?_, hstopped h.work, hstopped h.saved⟩
  rw [hbooks] at hl
  exact hdead (h.call pc key hpc hkey g l hl hcovers)

theorem Calm.setTx (h : Calm s) {t' : Tx} (hk : s.txs[k]? = some t) (ht' : t'.Calm s) : Calm (s.setTx k t') := by
  intro j u hj
  rcases getElem?_set_cases hk hj with ⟨-, rfl⟩ | ⟨-, hj⟩
  · exact ht'.aside (fun _ _ => rfl) rfl rfl le_rfl
  · exact (h j u hj).aside (fun _ _ => rfl) rfl rfl le_rfl

/-- **Every action that is in time** keeps it. -/
theorem Calm.step {a : Action} (h : Calm s) (hs : Sound s) (hlocked : Locked s) (hb : Behind s) (hstep : step s a s')
    (htimely : timely s a = true) : Calm s' := by
  have hwrites {t : Tx} {pc : Pc} (hno : pc.writes = none) (pc' : Pc) (key : StopKey) (hpc : some pc = some pc')
      (hkey : pc'.writes = some key) : Still s t.work key := by
    obtain rfl := Option.some.inj hpc
    rw [hno] at hkey
    cases hkey
  cases step_happens hstep with
  | aside hbooks hstops hexpiry htxs hclock => exact fun j u hj => (h j u (htxs ▸ hj)).aside hbooks hstops hexpiry hclock
  | connect =>
    intro j u hj
    rcases getElem?_concat_cases hj with rfl | hj
    · exact .idle
    · exact (h j u hj).aside (fun _ _ => rfl) rfl rfl le_rfl
  | @call k t c hk =>
    have ht := h k t hk
    refine h.setTx hk ⟨hwrites (t := t) ?_, ht.work, ht.work⟩
    cases c <;> simp only [Call.start] <;> (try split) <;> rfl
  | @run k t pc pc' w hk hpc hexec =>
    have ht := h k t hk
    obtain ⟨htouch, -⟩ := exec_touch (hlocked.call k t pc hk hpc) (fun x hx => hlocked.free hk ⟨x, hx⟩) hexec
    have hwork : w.Stopped s := htouch.stopped hs (fun key hkey => ht.call pc key hpc hkey) (fun x hx => by
      subst hx
      simpa [timely, hk, hpc] using htimely) ht.work
    have hnew : Tx.Calm s ⟨w, t.saved, some pc'⟩ := by
      refine ⟨fun pc₁ key hpc₁ hkey => ?_, hwork, ht.saved⟩
      obtain rfl := Option.some.inj hpc₁
      exact exec_writes (hs.txs k t hk).work hexec hkey
    have hserial : Calm { s with serial := s.serial + 2 } := fun j u hj => (h j u hj).aside (fun _ _ => rfl) rfl rfl le_rfl
    exact hserial.setTx (t := t) hk (hnew.aside (fun _ _ => rfl) rfl rfl le_rfl)
  | @commit k t hk =>
    intro j u hj
    rcases getElem?_set_cases hk hj with ⟨-, rfl⟩ | ⟨hne, hj⟩
    · exact .idle
    · exact (Calm.install hs hlocked hb hk htimely hj hne (h j u hj)).aside (fun _ _ => rfl) rfl rfl le_rfl
  | rollback hk => exact h.setTx hk .idle
  | @rescue k t hk => exact h.setTx hk ⟨fun _ _ hpc => (by cases hpc), (h k t hk).saved, (h k t hk).saved⟩

/-- What is true of every run in which renewals are in time. -/
theorem calm_reachable (h : Reaches (Guarded step fun s a _ => timely s a = true) .init s) : Calm s := by
  refine (h.inv (I := fun s => (Sound s ∧ Locked s ∧ Behind s) ∧ Calm s)
    ⟨⟨sound_init, locked_init, fun _ _ hk => nomatch hk⟩, fun _ _ hk => nomatch hk⟩ fun s a s' hs hstep => ?_).2
  obtain ⟨⟨hsound, hlocked, hb⟩, hcalm⟩ := hs
  exact ⟨⟨hsound.step hstep.1, hlocked.step hstep.1, hb.step hsound hlocked hstep.1⟩,
    hcalm.step hsound hlocked hb hstep.1 hstep.2⟩

end Calm

/-! ### Leases that are over -/

/-- The lease is committed, and it is not live. -/
structure Over (s : State) (g id : ℕ) : Prop where
  there : ∃ l ∈ (booksOf s .none g).leases, l.id = id
  dead : ∀ l ∈ (booksOf s .none g).leases, l.id = id → isLive s .none s.clock l = false

section Over

variable {s s' : State} {k g id : ℕ} {t : Tx} {l : AdmissionLease} {a : Action} {key : StopKey} {x : KillSwitchState}

/-- Committed leases of a grant have ids of their own. -/
theorem same_committed (hs : Sound s) {c : AdmissionLease} (hl : l ∈ (booksOf s .none g).leases) (hc : c ∈ (booksOf s .none g).leases)
    (hid : l.id = c.id) : l = c := by
  have ha := List.getElem?_eq_getElem (committed_lt hl)
  rw [booksOf_free rfl ha] at hl hc
  exact List.inj_on_of_nodup_map (hs.books g _ ha).ids hl hc hid

/-- A lease that is committed stays in the books. -/
theorem there_install (hs : Sound s) (hk : s.txs[k]? = some t) (hl : ∃ l ∈ (booksOf s .none g).leases, l.id = id) :
    ∃ l ∈ (booksOf s t.work g).leases, l.id = id := by
  obtain ⟨c, hc, rfl⟩ := hl
  obtain ⟨account, ha, -, hfollows⟩ := booksOf_sound hs (hs.txs k t hk).work (committed_lt hc)
  rw [booksOf_free rfl ha] at hc
  obtain ⟨l, hl, rfl | ⟨-, -, hid, -⟩⟩ := hfollows.kept hc
  · exact ⟨l, hl, rfl⟩
  · exact ⟨l, hl, hid⟩

theorem Over.congr (h : Over s g id) (hbooks : booksOf s' .none g = booksOf s .none g) (hexpiry : s'.expiry = s.expiry)
    (hclock : s.clock ≤ s'.clock) : Over s' g id := by
  refine ⟨hbooks ▸ h.there, fun l hl hid => ?_⟩
  have hdead := h.dead l (hbooks ▸ hl) hid
  rw [not_live_iff] at hdead ⊢
  intro hopen
  have hle := hdead hopen
  unfold expiryOf at hle ⊢
  rw [hexpiry]
  omega

theorem Over.step (h : Over s g id) (hs : Sound s) (hstep : step s a s') (htimely : timely s a = true) : Over s' g id := by
  cases step_happens hstep with
  | aside hbooks _ hexpiry _ hclock => exact h.congr (hbooks _ _) hexpiry hclock
  | connect | call _ hk | run hk _ _ | rollback hk | rescue hk => exact h.congr rfl rfl le_rfl
  | @commit k t hk =>
    have hbooks : booksOf ((s.install t.work).setTx k .idle) .none g = booksOf s t.work g := committed_install (hs.txs k t hk).work
    refine ⟨hbooks ▸ there_install hs hk h.there, fun l hl hid => ?_⟩
    rw [hbooks] at hl
    by_cases hopen : l.isOpen = true
    · -- a lease that is open is the one that was there
      have hold := open_committed hs hk hl hopen (hid ▸ h.there)
      have hdead := dead_install (g := g) htimely hk (h.dead l hold hid) (.inl ⟨l, hold, rfl⟩)
      exact hdead
    · rw [not_live_iff]
      exact fun h => absurd h hopen

/-- A row that is closed stays as it is. -/
theorem closed_step (hs : Sound s) (hstep : step s a s') (hl : l ∈ (booksOf s .none g).leases) (hclosed : l.isOpen = false) :
    l ∈ (booksOf s' .none g).leases := by
  cases step_happens hstep with
  | aside hbooks _ _ _ _ => rwa [hbooks]
  | connect | call _ hk | run hk _ _ | rollback hk | rescue hk => exact hl
  | @commit k t hk =>
    have hbooks : booksOf ((s.install t.work).setTx k .idle) .none g = booksOf s t.work g := committed_install (hs.txs k t hk).work
    obtain ⟨account, ha, -, hfollows⟩ := booksOf_sound hs (hs.txs k t hk).work (committed_lt hl)
    rw [booksOf_free rfl ha] at hl
    rw [hbooks]
    exact hfollows.closed hl hclosed

/-- What a commit makes of a stop is what the transaction has recorded. -/
theorem recorded (hx : stopOf s t.work key = some x) (hne : s.stop key ≠ some x) : t.work.stops.find? (·.key = key) = some x := by
  rw [stopOf_stop] at hx
  exact (Option.or_eq_some_iff.mp hx).resolve_right fun h => hne h.2

/-- When a stop is stopped, what is committed in its scope is over. -/
theorem over_of_stopped (hs : Sound s) (hcalm : Calm s) (hk : s.txs[k]? = some t) (hx : stopOf s t.work key = some x)
    (hstopped : x.state = .STOPPED) (hne : s.stop key ≠ some x) {c : AdmissionLease} (hc : c ∈ (booksOf s .none g).leases)
    (hcovers : key.covers g c = true) : Over ((s.install t.work).setTx k .idle) g c.id := by
  have hbooks : booksOf ((s.install t.work).setTx k .idle) .none g = booksOf s t.work g := committed_install (hs.txs k t hk).work
  refine ⟨by rw [hbooks]; exact there_install hs hk ⟨c, hc, rfl⟩, fun l hl hid => ?_⟩
  rw [hbooks] at hl
  rw [not_live_iff]
  intro hopen
  have hold := open_committed hs hk hl hopen ⟨c, hc, hid.symm⟩
  obtain rfl := same_committed hs hold hc hid
  have hdead := (hcalm k t hk).work key x (recorded hx hne) hstopped hne g l hl hcovers ⟨l, hold, rfl⟩
  have hle := not_live_iff.mp hdead hopen
  have hexpiry : expiryOf ((s.install t.work).setTx k .idle) .none l.id = expiryOf s t.work l.id := by
    rw [show expiryOf ((s.install t.work).setTx k .idle) .none l.id = expiryOf (s.install t.work) .none l.id from rfl, expiryOf_install]
    rfl
  rw [hexpiry]
  exact hle

/-- The steps of the runs in which renewals are in time. -/
def timelyStep : State → Action → State → Prop := Guarded step fun s a _ => timely s a = true

theorem timely_reachable (h : Reaches timelyStep .init s) : (Sound s ∧ Locked s ∧ Behind s) ∧ Calm s :=
  ⟨behind_reachable h.of_guarded, calm_reachable h⟩

/-- Over a run. -/
theorem Over.run (ho : Over s g id) (h : Reaches timelyStep .init s) (h' : Reaches timelyStep s s') : Over s' g id :=
  (h'.inv (I := fun s => Sound s ∧ Over s g id) ⟨(timely_reachable h).1.1, ho⟩ fun _ _ _ hu hstep =>
    ⟨hu.1.step hstep.1, hu.2.step hu.1 hstep.1 hstep.2⟩).2

/-- What is committed in the scope of a stop is over from the moment that the stop is stopped. -/
theorem over_since_stopped {s'' : State} (h : Reaches timelyStep .init s) (hstep : timelyStep s (.commit k) s')
    (h' : Reaches timelyStep s' s'') (hx : s'.stop key = some x) (hstopped : x.state = .STOPPED) (hne : s.stop key ≠ some x)
    (hl : l ∈ (booksOf s .none g).leases) (hcovers : key.covers g l = true) : Over s'' g l.id := by
  obtain ⟨⟨hs, -, -⟩, hcalm⟩ := timely_reachable h
  have hover : Over s' g l.id := by
    obtain ⟨t, hk, hcommit⟩ := Option.bind_eq_some_iff.mp hstep.1
    split at hcommit <;> cases hcommit
    exact over_of_stopped hs hcalm hk hx hstopped hne hl hcovers
  exact hover.run (h.snoc hstep) h'

/-- **A lease that is over stays over.** A row that is closed is never opened. In runs in which renewals are in time a lease that
is not live never is again, and when a stop is stopped this is so of every lease in its scope. A stopped execution has no lease
after that. -/
theorem over_for_good :
    (∀ s s', Reaches step .init s → Reaches step s s' → ∀ g, ∀ l ∈ (booksOf s .none g).leases, l.isOpen = false →
      ∀ l' ∈ (booksOf s' .none g).leases, l'.id = l.id → l' = l) ∧
    (∀ s s', Reaches timelyStep .init s → Reaches timelyStep s s' → ∀ g id, Over s g id → Over s' g id) ∧
    (∀ s s' s'' k, Reaches timelyStep .init s → timelyStep s (.commit k) s' → Reaches timelyStep s' s'' →
      ∀ key x, s'.stop key = some x → x.state = .STOPPED → s.stop key ≠ some x →
      ∀ g, ∀ l ∈ (booksOf s .none g).leases, key.covers g l = true → Over s'' g l.id) ∧
    ∀ s s' k, Reaches step .init s → step s (.commit k) s' → ∀ g, ∀ l ∈ (booksOf s' .none g).leases, l.isOpen = true →
      (∀ c ∈ (booksOf s .none g).leases, c.id ≠ l.id) → s.stop (.EXECUTION l.executionId) = none := by
  refine ⟨fun s s' h h' g l hl hclosed l' hl' hid => ?_, fun s s' h h' g id ho => ho.run h h',
    fun s s' s'' k h hstep h' key x hx hstopped hne g l hl hcovers => over_since_stopped h hstep h' hx hstopped hne hl hcovers,
    fun s s' k h hstep g l hl hopen hnew => ?_⟩
  · obtain ⟨hs', hkept⟩ := h'.inv (I := fun s => Sound s ∧ l ∈ (booksOf s .none g).leases) ⟨sound_reachable h, hl⟩
      fun u a u' hu hstep => ⟨hu.1.step hstep, closed_step hu.1 hstep hu.2 hclosed⟩
    exact same_committed hs' hl' hkept hid
  · obtain ⟨hs, -, hb⟩ := behind_reachable h
    obtain ⟨t, hk, hcommit⟩ := Option.bind_eq_some_iff.mp hstep
    split at hcommit <;> cases hcommit
    rw [show booksOf ((s.install t.work).setTx k .idle) .none g = booksOf s t.work g from committed_install (hs.txs k t hk).work] at hl
    exact ((hb k t hk).1 g l ⟨⟨hl, hopen⟩, hnew⟩).own l.executionId (List.mem_cons_self ..)

/-- The system stops a grant for which nothing is under way. -/
def stoppedGrant : List Action :=
  [.createTarget 7 (some .STAGING), .authorize ⟨0, 7, [.STAGING], 2, 1, 1000000, none⟩, .connect,
    .call 0 (.triggerStop (.GRANT 0) none .SYSTEM_SAFETY_POLICY)] ++ List.replicate 3 (.run 0) ++ [.call 0 (.ackStop (.GRANT 0))] ++
    List.replicate 2 (.run 0) ++ [.call 0 (.recordStopped (.GRANT 0))] ++ List.replicate 4 (.run 0) ++ [.commit 0]

/-- The same with a lease, which expires first. -/
def stoppedLease : List Action :=
  oneLease ++ [.tick 30000, .call 0 (.triggerStop (.GRANT 0) none .SYSTEM_SAFETY_POLICY)] ++ List.replicate 3 (.run 0) ++
    [.call 0 (.ackStop (.GRANT 0))] ++ List.replicate 2 (.run 0) ++ [.call 0 (.recordStopped (.GRANT 0))] ++ List.replicate 4 (.run 0)

theorem over_for_good_stopped : ∃ s s' l, Reaches timelyStep .init s ∧ timelyStep s (.commit 0) s' ∧
    l ∈ (booksOf s .none 0).leases ∧ l.id = 32 ∧ Over s' 0 l.id := by
  obtain ⟨s, hs, hp⟩ := Reaches.exists_of_play next timely .init stoppedLease
    (fun s => (booksOf s .none 0).leases = [⟨32, 7, 0, none, "unit-1", "key-1", 33, none, none⟩] ∧ s.stop (.GRANT 0) = none ∧
      timely s (.commit 0) = true ∧ (next s (.commit 0)).any (fun s' => s'.stop (.GRANT 0) = some ⟨.GRANT 0, .STOPPED, 30000⟩) = true)
    (by decide)
  obtain ⟨hleases, hnone, htimely, hnext⟩ := hp
  obtain ⟨s', hs', hstop⟩ := (Option.any_eq_true _ _).mp hnext
  have hmem : (⟨32, 7, 0, none, "unit-1", "key-1", 33, none, none⟩ : AdmissionLease) ∈ (booksOf s .none 0).leases := by simp [hleases]
  exact ⟨s, s', _, hs, ⟨hs', htimely⟩, hmem, rfl, over_for_good.2.2.1 s s' s' 0 hs ⟨hs', htimely⟩ (Reaches.refl s') (.GRANT 0)
    ⟨.GRANT 0, .STOPPED, 30000⟩ (by simpa using hstop) rfl (by simp [hnone]) 0 _ hmem rfl⟩

/-- A lease that is admitted in the scope of a stop that is stopped is renewed there. -/
theorem renewed_after_stopped : ¬ ∀ s s' a, Reaches timelyStep .init s → timelyStep s a s' → ∀ key x, s.stop key = some x →
    x.state = .STOPPED → ∀ g, ∀ l ∈ (booksOf s .none g).leases, key.covers g l = true → expiryOf s' .none l.id ≤ expiryOf s .none l.id := by
  intro hall
  obtain ⟨s, hs, hleases, hstop, htimely, hnext⟩ := Reaches.exists_of_play next timely .init
    (stoppedGrant ++ ([.call 0 (.admission firstRequest)] : List Action) ++ List.replicate 17 (.run 0 : Action) ++ ([.commit 0, .tick 1000, .call 0 (.renew 50 51)] : List Action) ++
      List.replicate 4 (.run 0 : Action))
    (fun s => (booksOf s .none 0).leases = [⟨50, 7, 0, none, "unit-1", "key-1", 51, none, none⟩] ∧
      s.stop (.GRANT 0) = some ⟨.GRANT 0, .STOPPED, 0⟩ ∧ timely s (.commit 0) = true ∧
      (next s (.commit 0)).any (fun s' => expiryOf s .none 50 < expiryOf s' .none 50) = true) (by decide)
  obtain ⟨s', hs', hlt⟩ := (Option.any_eq_true _ _).mp hnext
  have hmem : (⟨50, 7, 0, none, "unit-1", "key-1", 51, none, none⟩ : AdmissionLease) ∈ (booksOf s .none 0).leases := by simp [hleases]
  exact absurd (hall s s' (.commit 0) hs ⟨hs', htimely⟩ (.GRANT 0) _ hstop rfl 0 _ hmem rfl) (Int.not_le.mpr (by simpa using hlt))

end Over

/-! ### The kill switch -/

section KillSwitch

variable {s s' : State} {k : ℕ} {t : Tx} {w w' : Work} {pc pc' : Pc} {key : StopKey} {others : List Work} {a : Action}

/-- Who is granted an admission has the locks of its scopes, and no stop of them is pending. -/
theorem granted_behind {r : AdmitRequest} {now : ℤ} {leaseId token : Option ℕ} {replay : Bool} (hpc : pc.Locked s w)
    (h : exec s others w pc = some (w', .admitted r now (.granted leaseId token replay))) :
    ∃ a : Admission, (pc = .replay a ∨ pc = .book a) ∧ a.r = r ∧ ∀ key ∈ a.keys, (LockKey.stop key, true) ∈ w.locks ∧ NotPending s w key := by
  have hstmt : admitStep s others w pc = some (w', .admitted r now (.granted leaseId token replay)) := by
    unfold exec at h
    rcases Option.or_eq_some_iff.mp h with h | ⟨-, h⟩
    · exact h
    rcases Option.or_eq_some_iff.mp h with h | ⟨-, h⟩
    · exact absurd (renew_writes h).2 (by simp [Pc.isGranted])
    rcases Option.or_eq_some_iff.mp h with h | ⟨-, h⟩
    · exact absurd (release_writes h).2 (by simp [Pc.isGranted])
    rcases Option.or_eq_some_iff.mp h with h | ⟨-, h⟩
    · exact absurd (reclaim_writes h).2 (by simp [Pc.isGranted])
    · exact absurd (stop_granted h) (by simp [Pc.isGranted])
  have hseen {a : Admission} (h : (∀ p ∈ admitLocks a, p ∈ w.locks) ∧ ∀ key ∈ a.keys, NotPending s w key) (key : StopKey) (hkey : key ∈ a.keys) :
      (LockKey.stop key, true) ∈ w.locks ∧ NotPending s w key := ⟨h.1 _ (mem_admitLocks hkey), h.2 key hkey⟩
  unfold admitStep refuse at hstmt
  split at hstmt
  case h_10 a =>
    refine ⟨a, .inl rfl, ?_, hseen hpc⟩
    dsimp only at hstmt
    (repeat' split at hstmt) <;> cases hstmt <;> rfl
  case h_12 a =>
    refine ⟨a, .inr rfl, ?_, hseen hpc⟩
    dsimp only at hstmt
    (repeat' split at hstmt) <;> cases hstmt <;> rfl
  all_goals (repeat' split at hstmt) <;> cases hstmt

/-- A statement moves stops along the edges, and records one as stopped only where nothing is live. -/
theorem Touch.moves (h : Touch s others w pc w') {x : KillSwitchState} (hx : stopOf s w' x.key = some x) :
    stopOf s w x.key = some x ∨
      Edge (stopOf s w x.key) x ∧ (LockKey.stop x.key, false) ∈ w.locks ∧ (x.state = .STOPPED → pc.writes = some x.key) := by
  have hsame (hstops : w'.stops = w.stops) : stopOf s w x.key = some x := by
    rw [← hx, stopOf_same hstops]
  have hother {y : KillSwitchState} (hne : x.key ≠ y.key) (hx : stopOf s (w.holdStop y) x.key = some x) : stopOf s w x.key = some x := by
    rw [← hx, stopOf_stop, stopOf_stop, find_holdStop_ne hne]
  have hown {y : KillSwitchState} (hkey : x.key = y.key) (hx : stopOf s (w.holdStop y) x.key = some x) : x = y := by
    rw [hkey, stopOf_stop, find_holdStop] at hx
    exact (Option.some.inj hx).symm
  cases h with
  | same _ hstops _ _ | enter _ _ hstops _ _ | renew _ _ hstops _ _ _ => exact .inl (hsame hstops)
  | lock _ => exact .inl (hsame rfl)
  | @hold y _ hy =>
    by_cases e : x.key = y.key
    · obtain rfl := hown e hx
      exact .inl hy
    · exact .inl (hother e hx)
  | @write y hlock _ hedge hstopped =>
    by_cases e : x.key = y.key
    · obtain rfl := hown e hx
      exact .inr ⟨hedge, hlock, hstopped⟩
    · exact .inl (hother e hx)

/-- What a transaction has locked only its own commit changes. -/
theorem Locked.stop_step (h : Locked s) (hstep : Safety.step s a s') (hk : s.txs[k]? = some t)
    (hlock : ∃ shared, (LockKey.stop key, shared) ∈ t.work.locks) (ha : a ≠ .commit k) : s'.stop key = s.stop key := by
  cases step_happens hstep with
  | aside _ hstops _ _ _ => rw [State.stop, hstops, State.stop]
  | connect | call _ _ | run _ _ _ | rollback _ | rescue _ => rfl
  | @commit j u hj => exact h.commit_stop hj hk (fun e => ha (e ▸ rfl)) (.inl hlock)

/-- **The kill switch.** Whoever is granted an admission has the locks of its scopes and sees no stop of them pending, and a lock
keeps the others from changing the stop; so new leases are committed behind no pending stop, but those of one that the same
transaction makes. A stop is made as requested and moves along the edges of its life, a new incident starting it again. And in
runs in which renewals are in time, nothing in the scope is live or being admitted when a stop is recorded as stopped, and
nothing there is live when that is committed. -/
theorem kill_switch (s : State) :
    (Reaches step .init s →
      (∀ (k : ℕ) (t : Tx) pc w r now leaseId token replay, s.txs[k]? = some t → t.call = some pc →
        exec s (s.others k) t.work pc = some (w, .admitted r now (.granted leaseId token replay)) →
        ∃ a : Admission, (pc = .replay a ∨ pc = .book a) ∧ a.r = r ∧
          ∀ key ∈ a.keys, (LockKey.stop key, true) ∈ t.work.locks ∧ NotPending s t.work key) ∧
      (∀ (k : ℕ) (t : Tx) key a s', s.txs[k]? = some t → (∃ shared, (LockKey.stop key, shared) ∈ t.work.locks) → step s a s' → a ≠ .commit k →
        s'.stop key = s.stop key) ∧
      (∀ (k : ℕ) (t : Tx) g l, s.txs[k]? = some t → t.work.New s g l → ∀ key ∈ l.keys g,
        (∀ x, s.stop key = some x → x.isPending = false) ∨ (LockKey.stop key, false) ∈ t.work.locks) ∧
      (∀ (k : ℕ) (t : Tx) pc w pc' x, s.txs[k]? = some t → t.call = some pc → exec s (s.others k) t.work pc = some (w, pc') →
        stopOf s w x.key = some x → stopOf s t.work x.key = some x ∨ Edge (stopOf s t.work x.key) x) ∧
      ∀ (k : ℕ) (t : Tx) s' key, s.txs[k]? = some t → step s (.commit k) s' → s'.stop key = stopOf s t.work key) ∧
    (Reaches timelyStep .init s →
      (∀ (k : ℕ) (t : Tx) pc w pc' x, s.txs[k]? = some t → t.call = some pc → exec s (s.others k) t.work pc = some (w, pc') →
        stopOf s w x.key = some x → x.state = .STOPPED → stopOf s t.work x.key ≠ some x →
        Still s t.work x.key ∧ ∀ (j : ℕ) (u : Tx) g l, j ≠ k → s.txs[j]? = some u → u.work.New s g l → x.key.covers g l = false) ∧
      ∀ k s' x, step s (.commit k) s' → s'.stop x.key = some x → x.state = .STOPPED → s.stop x.key ≠ some x →
        ∀ g, ∀ l ∈ (booksOf s .none g).leases, x.key.covers g l = true → Over s' g l.id) := by
  have hcommitted {k : ℕ} {t : Tx} {s' : State} {key : StopKey} (hk : s.txs[k]? = some t) (hstep : step s (.commit k) s') :
      s' = (s.install t.work).setTx k .idle ∧ s'.stop key = stopOf s t.work key := by
    obtain ⟨t', hk', hcommit⟩ := Option.bind_eq_some_iff.mp hstep
    obtain rfl := Option.some.inj (hk.symm.trans hk')
    split at hcommit <;> cases hcommit
    exact ⟨rfl, rfl⟩
  constructor
  · intro h
    obtain ⟨hs, hlocked, hb⟩ := behind_reachable h
    refine ⟨fun k t pc w r now leaseId token replay hk hpc hexec => granted_behind (hlocked.call k t pc hk hpc) hexec,
      fun k t key a s' hk hlock hstep ha => hlocked.stop_step hstep hk hlock ha,
      fun k t g l hk hnew key hkey => ((hb k t hk).1 g l hnew).free key hkey, fun k t pc w pc' x hk hpc hexec hx => ?_,
      fun k t s' key hk hstep => (hcommitted hk hstep).2⟩
    obtain ⟨htouch, -⟩ := exec_touch (hlocked.call k t pc hk hpc) (fun y hy => hlocked.free hk ⟨y, hy⟩) hexec
    exact (htouch.moves hx).imp_right And.left
  · intro h
    obtain ⟨⟨hs, hlocked, hb⟩, hcalm⟩ := timely_reachable h
    refine ⟨fun k t pc w pc' x hk hpc hexec hx hstopped hne => ?_, fun k s' x hstep hx hstopped hne g l hl hcovers => ?_⟩
    · obtain ⟨htouch, -⟩ := exec_touch (hlocked.call k t pc hk hpc) (fun y hy => hlocked.free hk ⟨y, hy⟩) hexec
      obtain ⟨-, hlock, hwrites⟩ := (htouch.moves hx).resolve_left hne
      refine ⟨(hcalm k t hk).call pc x.key hpc (hwrites hstopped), fun j u g l hjk hj hnew => ?_⟩
      by_contra hcovers
      obtain ⟨shared, hp⟩ := ((hb j u hj).1 g l hnew).locked x.key (covers_iff.mp (by simpa using hcovers))
      exact hlocked.excluded k j t u _ _ (Ne.symm hjk) hk hj hlock hp rfl
    · obtain ⟨t, hk, -⟩ := Option.bind_eq_some_iff.mp hstep
      obtain ⟨rfl, hstop⟩ := @hcommitted k t s' x.key hk hstep
      exact over_of_stopped hs hcalm hk (hstop ▸ hx) hstopped hne hl hcovers

theorem kill_switch_stopped : ∃ s s' l, Reaches timelyStep .init s ∧ step s (.commit 0) s' ∧ l ∈ (booksOf s .none 0).leases ∧
    l.isOpen = true ∧ Over s' 0 l.id := by
  obtain ⟨s, hs, hleases, hnone, hnext⟩ := Reaches.exists_of_play next timely .init stoppedLease
    (fun s => (booksOf s .none 0).leases = [⟨32, 7, 0, none, "unit-1", "key-1", 33, none, none⟩] ∧ s.stop (.GRANT 0) = none ∧
      (next s (.commit 0)).any (fun s' => s'.stop (.GRANT 0) = some ⟨.GRANT 0, .STOPPED, 30000⟩) = true) (by decide)
  obtain ⟨s', hs', hstop⟩ := (Option.any_eq_true _ _).mp hnext
  have hmem : (⟨32, 7, 0, none, "unit-1", "key-1", 33, none, none⟩ : AdmissionLease) ∈ (booksOf s .none 0).leases := by simp [hleases]
  exact ⟨s, s', _, hs, hs', hmem, rfl, ((kill_switch s).2 hs).2 0 s' ⟨.GRANT 0, .STOPPED, 30000⟩ hs' (by simpa using hstop) rfl
    (by simp [hnone]) 0 _ hmem rfl⟩

/-- A stop that is stopped may be requested again. -/
theorem requested_again : ¬ ∀ s s' a, Reaches timelyStep .init s → timelyStep s a s' → ∀ key x y, s.stop key = some x → s'.stop key = some y →
    x.state = .STOPPED → y.state = .STOPPED := by
  intro hall
  obtain ⟨s, hs, hstop, htimely, hnext⟩ := Reaches.exists_of_play next timely .init
    (stoppedGrant ++ ([.call 0 (.triggerStop (.GRANT 0) none .SYSTEM_SAFETY_POLICY)] : List Action) ++ List.replicate 3 (.run 0 : Action))
    (fun s => s.stop (.GRANT 0) = some ⟨.GRANT 0, .STOPPED, 0⟩ ∧ timely s (.commit 0) = true ∧
      (next s (.commit 0)).any (fun s' => s'.stop (.GRANT 0) = some ⟨.GRANT 0, .REQUESTED, 0⟩) = true) (by decide)
  obtain ⟨s', hs', hstop'⟩ := (Option.any_eq_true _ _).mp hnext
  have hstate := hall s s' (.commit 0) hs ⟨hs', htimely⟩ (.GRANT 0) _ ⟨.GRANT 0, .REQUESTED, 0⟩ hstop (by simpa using hstop') rfl
  cases hstate

end KillSwitch

end WebAudit.Safety
