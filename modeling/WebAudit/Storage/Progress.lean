import WebAudit.Storage.Retention
import WebAudit.Lib.Runs

/-!
# Retention over many runs

Any number of runs, with completions and changes of plans between them (`Swept`). A run looks only at the reports
that have completed first. Where these are unexpired ones it does nothing, and the next run looks at the same
(`starves`). While no run leaves an expired report out for an unexpired one, and no call fails ahead of an expired
one, each run that passes a report over removes a full batch (`Swept.removed`).
-/

namespace WebAudit.Storage

open WebAudit.Lib

variable {deps : RetentionDeps} {s s' s₀ u : System} {a : Action} {run : Run} {id i : ℕ} {scan : Scan}
  {trace : List (System × Run)} {E : Finset ℕ}

/-- Any population of completed scans, of which nothing has been warned yet. -/
structure System.Start (s : System) : Prop where
  mails : s.mails = []
  keys : s.KeysDistinct

theorem System.Start.kept (h : s.Start) : Kept s := by
  have hzero : ∀ id, s.warnings id = 0 := fun id => by
    unfold System.warnings
    rw [h.mails]
    rfl
  exact ⟨fun id => by simp [hzero], fun id hid => by simp [hzero] at hid, h.keys⟩

theorem System.getElem?_complete {r : Scan} (h : (s.scans ++ [scan])[i]? = some r) :
    s.scans[i]? = some r ∨ (i = s.scans.length ∧ r = scan) := by
  by_cases hi : i < s.scans.length
  · exact .inl (by rwa [List.getElem?_append_left hi] at h)
  · rw [List.getElem?_append_right (by omega)] at h
    have hlt := (List.getElem?_eq_some_iff.mp h).1
    rw [List.length_singleton] at hlt
    refine .inr ⟨by omega, ?_⟩
    rw [show i - s.scans.length = 0 by omega] at h
    exact (Option.some.inj h).symm

theorem Kept.step (h : Kept s) (hs : Step deps s a s') : Kept s' := by
  cases hs with
  | subscribe => exact ⟨h.warned, h.stamped, h.keys⟩
  | changeFree => exact ⟨h.warned, h.stamped, h.keys⟩
  | enforce hf => exact h.all hf.fresh
  | @complete scan hc =>
    refine ⟨h.warned, fun id hid => ?_, fun i j x y key hx hy hkx hky => ?_⟩
    · obtain ⟨row, hrow, hst⟩ := h.stamped id hid
      exact ⟨row, by rw [List.getElem?_append_left (List.getElem?_eq_some_iff.mp hrow).1, hrow], hst⟩
    · rcases System.getElem?_complete hx with hx' | ⟨rfl, rfl⟩ <;> rcases System.getElem?_complete hy with hy' | ⟨rfl, rfl⟩
      · exact h.keys i j x y key hx' hy' hkx hky
      · exact absurd hky (hc.2.2 x (List.mem_of_getElem? hx') key hkx)
      · exact absurd hkx (hc.2.2 y (List.mem_of_getElem? hy') key hky)
      · rfl

/-- What a step takes of a report, it takes past its boundary. -/
theorem Step.intact (hs : Step deps s a s') (h : Kept s) (hi : s.scans[i]? = some scan) :
    (∃ scan', s'.scans[i]? = some scan' ∧ Intact s s' i scan scan') ∨
      ∃ run, a = .enforce run ∧ ∃ item ∈ run.items, item.id = i ∧ s.Past scan run.now item.answers.clock := by
  cases hs with
  | subscribe => exact .inl ⟨scan, hi, rfl, rfl, fun _ _ h => h, fun h => h⟩
  | changeFree => exact .inl ⟨scan, hi, rfl, rfl, fun _ _ h => h, fun h => h⟩
  | complete =>
    refine .inl ⟨scan, ?_, rfl, rfl, fun _ _ h => List.mem_append_left _ h, fun h => List.mem_append_left _ h⟩
    rw [List.getElem?_append_left (List.getElem?_eq_some_iff.mp hi).1, hi]
  | @enforce run hf =>
    rcases enforceAll_intact h hf.fresh hi with hint | ⟨item, hitem, rfl, hpast⟩
    · exact .inl hint
    · obtain rfl := Option.some.inj ((hf.fresh.current item hitem).symm.trans hi)
      exact .inr ⟨run, rfl, item, hitem, rfl, hpast⟩

theorem System.Removed.step (h : s.Removed id) (hs : Step deps s a s') : s'.Removed id := by
  cases hs with
  | subscribe => exact h
  | changeFree => exact h
  | enforce => exact h.all
  | complete =>
    obtain ⟨scan, hscan, hrem⟩ := h
    exact ⟨scan, by rw [List.getElem?_append_left (List.getElem?_eq_some_iff.mp hscan).1, hscan], hrem⟩

/-! ### Sequences of runs -/

/-- The runs, each with the state that it found. -/
inductive Swept (deps : RetentionDeps) : System → List (System × Run) → System → Prop
  | done (s : System) : Swept deps s [] s
  | between {s u s' : System} {a : Action} {trace : List (System × Run)} (hs : Step deps s a u) (ha : ∀ run, a ≠ .enforce run)
      (h : Swept deps u trace s') : Swept deps s trace s'
  | run {s u s' : System} {run : Run} {trace : List (System × Run)} (hs : Step deps s (.enforce run) u)
      (h : Swept deps u trace s') : Swept deps s ((s, run) :: trace) s'

theorem Swept.keeps_removed (h : Swept deps s trace s') (hr : s.Removed id) : s'.Removed id := by
  induction h with
  | done => exact hr
  | between hs _ _ ih => exact ih (hr.step hs)
  | run hs _ ih => exact ih (hr.step hs)

theorem Swept.removed_on_way (h : Swept deps s trace s') (hr : s.Removed id) : ∀ p ∈ trace, p.1.Removed id := by
  induction h with
  | done => simp
  | between hs _ _ ih => exact ih (hr.step hs)
  | run hs _ ih =>
    intro p hp
    rcases List.mem_cons.mp hp with rfl | hp
    · exact hr
    · exact ih (hr.step hs) p hp

/-- The run finds the report unremoved and past its boundary. -/
def System.Due (s : System) (run : Run) (id : ℕ) : Prop :=
  ∃ scan completedAt, s.Candidate id scan completedAt ∧
    (s.Past scan run.now run.now ∨ ∃ item ∈ run.items, item.id = id ∧ s.Past scan run.now item.answers.clock)

/-- No call fails ahead of an expired report, and no expired report is left out for an unexpired one. -/
structure System.Steady (s : System) (run : Run) : Prop where
  works : ∀ pre item post, run.items = pre ++ item :: post → s.Past item.fetched run.now item.answers.clock →
    ∀ other ∈ pre ++ [item], other.Works s
  expired : (∀ item ∈ run.items, s.Past item.fetched run.now item.answers.clock) ∨
    ∀ id scan completedAt, s.Candidate id scan completedAt → s.Past scan run.now run.now →
      ∃ item ∈ run.items, item.id = id ∧ s.Past scan run.now item.answers.clock

/-- A steady run removes each report of its batch that is past its boundary. -/
theorem System.Steady.removes (h : s.Steady run) (hf : s.Fetches run.items) {item : Item} (hitem : item ∈ run.items)
    (hpast : s.Past item.fetched run.now item.answers.clock) : (enforceRetention deps run s).1.Removed item.id := by
  obtain ⟨pre, post, hsplit⟩ := List.append_of_mem hitem
  exact enforceAll_removes hsplit hf.fresh (h.works pre item post hsplit hpast) hpast

/-- **A steady run removes an expired report, or a full batch of expired ones.** -/
theorem System.Steady.removes_or (deps : RetentionDeps) (h : s.Steady run) (hf : s.Fetches run.items) (hscan : s.scans[id]? = some scan)
    (hpast : s.Past scan run.now run.now) (hnot : ¬ s.Removed id) :
    (enforceRetention deps run s).1.Removed id ∨
      (run.items.length = batchSize ∧ ∀ item ∈ run.items,
        s.Due run item.id ∧ (enforceRetention deps run s).1.Removed item.id) := by
  have hrem : scan.reportRemovedAt = none := by
    by_contra hne
    exact hnot ⟨scan, hscan, hne⟩
  have ⟨completedAt, _, hc, _, _⟩ := hpast
  have hcand : s.Candidate id scan completedAt := ⟨hscan, hrem, hc⟩
  rcases h.expired with hall | hexp
  · by_cases hmem : id ∈ run.items.map (·.id)
    · obtain ⟨item, hitem, rfl⟩ := List.mem_map.mp hmem
      exact .inl (h.removes hf hitem (hall item hitem))
    · refine .inr ⟨(hf.oldest id scan completedAt hcand hmem).1, fun item hitem => ?_⟩
      obtain ⟨_, hitemc⟩ := hf.candidate item hitem
      exact ⟨⟨_, _, hitemc, .inr ⟨item, hitem, rfl, hall item hitem⟩⟩, h.removes hf hitem (hall item hitem)⟩
  · obtain ⟨item, hitem, rfl, hpast'⟩ := hexp id scan completedAt hcand hpast
    obtain rfl := Option.some.inj ((hf.fresh.current item hitem).symm.trans hscan)
    exact .inl (h.removes hf hitem hpast')

/-- **Progress.** Let `E` hold all the reports that the runs find expired. A report of `E` that stays past its boundary
is removed once the runs can have taken `E` in full batches. -/
theorem Swept.removed (h : Swept deps s trace s') (hsteady : ∀ p ∈ trace, p.1.Steady p.2)
    (hpast : ∀ p ∈ trace, ∃ scan : Scan, p.1.scans[id]? = some scan ∧ p.1.Past scan p.2.now p.2.now)
    (hE : ∀ p ∈ trace, ∀ i, p.1.Due p.2 i → i ∈ E) (hid : id ∈ E) (hcard : E.card ≤ batchSize * trace.length) :
    s'.Removed id := by
  induction h generalizing E with
  | done =>
    have := Finset.card_pos.mpr ⟨id, hid⟩
    simp at hcard
    simp [hcard] at hid
  | between _ _ _ ih => exact ih hsteady hpast hE hid hcard
  | @run s u s' run trace hs h ih =>
    by_cases hr : s.Removed id
    · exact h.keeps_removed (hr.step hs)
    · obtain ⟨scan, hscan, hp⟩ := hpast (s, run) (by simp)
      cases hs with
      | enforce hf =>
        rcases (hsteady (s, run) (by simp)).removes_or deps hf hscan hp hr with hrem | ⟨hlen, hbatch⟩
        · exact h.keeps_removed hrem
        · by_cases hmem : id ∈ run.items.map (·.id)
          · obtain ⟨item, hitem, rfl⟩ := List.mem_map.mp hmem
            exact h.keeps_removed (hbatch item hitem).2
          · -- the batch has gone; the rest of `E` is left for the runs that follow
            have hsub : (run.items.map (·.id)).toFinset ⊆ E := by
              intro j hj
              obtain ⟨item, hitem, rfl⟩ := List.mem_map.mp (List.mem_toFinset.mp hj)
              exact hE (s, run) (by simp) _ (hbatch item hitem).1
            have hsize : (run.items.map (·.id)).toFinset.card = batchSize := by
              rw [List.toFinset_card_of_nodup hf.distinct, List.length_map, hlen]
            refine ih (E := E \ (run.items.map (·.id)).toFinset) (fun p hp => hsteady p (List.mem_cons_of_mem _ hp))
              (fun p hp => hpast p (List.mem_cons_of_mem _ hp)) (fun p hp j hj => ?_) ?_ ?_
            · refine Finset.mem_sdiff.mpr ⟨hE p (List.mem_cons_of_mem _ hp) j hj, fun hjb => ?_⟩
              obtain ⟨item, hitem, rfl⟩ := List.mem_map.mp (List.mem_toFinset.mp hjb)
              obtain ⟨row, hrow, hne⟩ := h.removed_on_way (hbatch item hitem).2 p hp
              obtain ⟨row', _, ⟨hrow', hnone, -⟩, -⟩ := hj
              obtain rfl := Option.some.inj (hrow.symm.trans hrow')
              exact hne hnone
            · exact Finset.mem_sdiff.mpr ⟨hid, fun hjb => hmem (List.mem_toFinset.mp hjb)⟩
            · rw [Finset.card_sdiff_of_subset hsub, hsize]
              rw [List.length_cons, Nat.mul_succ] at hcard
              omega

/-- **Retention**, in every state that a table of completed scans can come to: a step takes nothing of a report that is
not past its boundary, no report has been warned about twice, and in steady runs an expired report is removed within
as many of them as take the expired ones in full batches. -/
theorem System.Start.enforced (h₀ : s₀.Start) (h : Reaches (Step deps) s₀ s) :
    (∀ a s', Step deps s a s' → ∀ id scan, s.scans[id]? = some scan →
      (∃ scan', s'.scans[id]? = some scan' ∧ Intact s s' id scan scan') ∨
        ∃ run, a = .enforce run ∧ ∃ item ∈ run.items, item.id = id ∧ s.Past scan run.now item.answers.clock) ∧
    (∀ id, s.warnings id ≤ 1) ∧
    ∀ trace s', Swept deps s trace s' → (∀ p ∈ trace, p.1.Steady p.2) →
      ∀ (E : Finset ℕ) (id : ℕ), (∀ p ∈ trace, ∀ i, p.1.Due p.2 i → i ∈ E) → id ∈ E →
        (∀ p ∈ trace, ∃ scan : Scan, p.1.scans[id]? = some scan ∧ p.1.Past scan p.2.now p.2.now) →
        E.card ≤ batchSize * trace.length → s'.Removed id := by
  have hkept : Kept s := h.inv h₀.kept fun _ _ _ hu hs => hu.step hs
  refine ⟨fun a s' hs id scan hscan => hs.intact hkept hscan, hkept.warned, ?_⟩
  intro trace s' hswept hsteady E id hE hid hpast hcard
  exact hswept.removed hsteady hpast hE hid hcard

/-- A free owner's report, looked at after thirty days. -/
theorem removed_after_thirty_days : ∃ s run s', Swept ⟨true, true⟩ s [(s, run)] s' ∧ ¬ s.Removed 0 ∧ s'.Removed 0 := by
  let scan : Scan := ⟨1, some 1, none, none, ⟨1, 1, true, some 80, some "Fair", []⟩⟩
  let s : System := ⟨[scan], fun _ => none, some 7, [], [], []⟩
  let run : Run := ⟨30 * dayMs, [⟨0, scan, ⟨30 * dayMs, true, true, true, fun _ => true, true⟩⟩]⟩
  have hrow : ∀ {i : ℕ} {r : Scan}, s.scans[i]? = some r → i = 0 ∧ r = scan := fun {i r} h => by
    rcases System.getElem?_complete (s := ⟨[], s.subscriptions, s.free, [], [], []⟩) h with h | h
    · simp at h
    · exact h
  have hpast : s.Past scan (30 * dayMs) (30 * dayMs) := ⟨1, 7, rfl, rfl, by decide⟩
  have hkeys : s.KeysDistinct := fun i j x y key hx hy _ _ => (hrow hx).1.trans (hrow hy).1.symm
  have hf : s.Fetches run.items := by
    refine ⟨by simp [run, s, scan, System.Candidate], by simp [run], by simp [run], by simp [run, batchSize], ?_⟩
    intro i r completedAt hc hnot
    simp [run, (hrow hc.1).1] at hnot
  have hswept : Swept ⟨true, true⟩ s [(s, run)] (enforceRetention ⟨true, true⟩ run s).1 := .run (.enforce hf) (.done _)
  have hsteady : s.Steady run := by
    refine ⟨fun pre item post hsplit _ other hother => ?_, .inl (by simpa [run] using hpast)⟩
    have hmem : other ∈ run.items := by
      rw [hsplit]
      simp only [List.mem_append, List.mem_cons] at hother ⊢
      tauto
    obtain rfl := List.mem_singleton.mp hmem
    exact ⟨rfl, rfl, rfl, rfl⟩
  refine ⟨s, run, _, hswept, fun hx => hx.elim fun r hr => hr.2 ((hrow hr.1).2 ▸ rfl), ?_⟩
  have hreach : Reaches (Step ⟨true, true⟩) s s := Reaches.refl s
  refine (System.Start.enforced ⟨rfl, hkeys⟩ hreach).2.2 _ _ hswept ?_ {0} 0 ?_ ?_ ?_ ?_
  · simpa using hsteady
  · rintro p hp i ⟨r, completedAt, hc, -⟩
    obtain rfl := List.mem_singleton.mp hp
    simp [(hrow hc.1).1]
  · simp
  · intro p hp
    obtain rfl := List.mem_singleton.mp hp
    exact ⟨scan, rfl, hpast⟩
  · simp [batchSize]

/-! ### A report that waits behind five hundred others -/

/-- A run whose reports are all left as they are changes nothing. -/
theorem enforceAll_kept {now : ℤ} {items : List Item} {result : RetentionResult}
    (h : ∀ item ∈ items, enforceOne deps now item.id item.fetched item.answers s = (s, .kept)) :
    enforceAll deps now items s result = (s, some result) := by
  induction items with
  | nil => rfl
  | cons item items ih =>
    rw [enforceAll_cons, h item (by simp)]
    exact ih fun other hother => h other (List.mem_cons_of_mem _ hother)

/-- The scan of an owner whose reports are kept for two years. -/
def early : Scan := ⟨0, some 0, none, none, ⟨0, 1, true, some 90, some "Sound", []⟩⟩

/-- The scan of an owner on the free plan, completed after those. -/
def late : Scan := ⟨1, some 1, none, none, ⟨1, 1, true, some 80, some "Fair", []⟩⟩

/-- Five hundred early scans and a late one. -/
def crowded : System where
  scans := List.replicate batchSize early ++ [late]
  subscriptions userId := if userId = 0 then some ⟨.ACTIVE, 100 * dayMs, 730⟩ else none
  free := some 7
  artifactStore := []
  storage := []
  mails := []

/-- Every call is answered. -/
def answered : Answers := ⟨30 * dayMs, true, true, true, fun _ => true, true⟩

/-- Thirty days later. -/
def thirtyDays : Run where
  now := 30 * dayMs
  items := (List.range batchSize).map fun id => ⟨id, early, answered⟩

theorem mem_thirtyDays {item : Item} (h : item ∈ thirtyDays.items) : ∃ id, id < batchSize ∧ item = ⟨id, early, answered⟩ := by
  simp only [thirtyDays, List.mem_map, List.mem_range] at h
  obtain ⟨id, hid, rfl⟩ := h
  exact ⟨id, hid, rfl⟩

theorem crowded_scan (h : crowded.scans[i]? = some scan) :
    (i < batchSize ∧ scan = early) ∨ (i = batchSize ∧ scan = late) := by
  unfold crowded at h
  rcases System.getElem?_complete (s := { crowded with scans := List.replicate batchSize early }) h with h | ⟨hi, h⟩
  · obtain ⟨hlt, heq⟩ := List.getElem?_eq_some_iff.mp h
    exact .inl ⟨by simpa using hlt, by simpa using heq.symm⟩
  · exact .inr ⟨by simpa using hi, h⟩

theorem crowded_early (h : i < batchSize) : crowded.scans[i]? = some early := by
  unfold crowded
  rw [List.getElem?_append_left (by simpa using h)]
  simp [h]

theorem thirtyDays_fetched : crowded.Fetches thirtyDays.items := by
  have hitem : ∀ item ∈ thirtyDays.items, item.id < batchSize ∧ item.fetched = early := by
    intro item hitem
    obtain ⟨id, hid, rfl⟩ := mem_thirtyDays hitem
    exact ⟨hid, rfl⟩
  have hids : thirtyDays.items.map (·.id) = List.range batchSize := by
    simp [thirtyDays, Function.comp_def]
  refine ⟨fun item h => ?_, ?_, ?_, by simp [thirtyDays], fun id scan completedAt hc hnot => ?_⟩
  · obtain ⟨hlt, hf⟩ := hitem item h
    exact ⟨0, by rw [hf, crowded_early hlt], by rw [hf, early], by rw [hf, early]⟩
  · rw [hids]
    exact List.nodup_range
  · refine List.pairwise_of_forall_mem_list fun a ha b hb p q hp hq => ?_
    rw [(hitem a ha).2] at hp
    rw [(hitem b hb).2] at hq
    cases hp
    cases hq
    exact le_rfl
  · refine ⟨by simp [thirtyDays], fun item h p hp => ?_⟩
    rw [(hitem item h).2] at hp
    cases hp
    rw [hids, List.mem_range] at hnot
    rcases crowded_scan hc.1 with ⟨hlt, -⟩ | ⟨-, rfl⟩
    · exact absurd hlt hnot
    · cases hc.2.2
      decide

theorem crowded_plan (clock : ℤ) : crowded.effectiveRetention early.userId clock = some 730 := rfl

theorem thirtyDays_keeps (deps : RetentionDeps) : enforceRetention deps thirtyDays crowded = (crowded, some ⟨0, 0⟩) := by
  refine enforceAll_kept fun item hitem => ?_
  obtain ⟨id, -, rfl⟩ := mem_thirtyDays hitem
  have hplan : crowded.effectiveRetention 0 2592000000 = some 730 := crowded_plan _
  simp [enforceOne, hplan, answered, early, boundary, thirtyDays, dayMs, retentionWarningLeadDays]

/-- However many runs there are, no call of which fails, the one expired report is not removed. -/
theorem starves : ∃ s run id scan, s.Start ∧ (∀ item ∈ run.items, item.Works s) ∧ s.scans[id]? = some scan ∧
    s.Past scan run.now run.now ∧ (∀ i, s.Due run i → i = id) ∧ ¬ s.Removed id ∧
      ∀ n, Swept ⟨true, true⟩ s (List.replicate n (s, run)) s := by
  have hlate : crowded.scans[batchSize]? = some late := by
    unfold crowded
    rw [List.getElem?_append_right (by simp)]
    simp
  have hyoung : ∀ clock, ¬ crowded.Past early (30 * dayMs) clock := by
    rintro clock ⟨completedAt, retentionDays, hc, hr, hb⟩
    cases hc
    cases hr
    revert hb
    decide
  refine ⟨crowded, thirtyDays, batchSize, late, ⟨rfl, ?_⟩, ?_, hlate, ⟨1, 7, rfl, rfl, by decide⟩, ?_, ?_, fun n => ?_⟩
  · intro i j x y key hx hy hkx
    rcases crowded_scan hx with ⟨-, rfl⟩ | ⟨-, rfl⟩ <;> cases hkx
  · intro item hitem
    obtain ⟨id, -, rfl⟩ := mem_thirtyDays hitem
    exact ⟨rfl, rfl, rfl, by rw [crowded_plan]; rfl⟩
  · rintro i ⟨scan, completedAt, hc, hpast⟩
    rcases crowded_scan hc.1 with ⟨-, rfl⟩ | ⟨rfl, -⟩
    · rcases hpast with hpast | ⟨item, -, -, hpast⟩
      · exact absurd hpast (hyoung _)
      · exact absurd hpast (hyoung _)
    · rfl
  · rintro ⟨scan, hscan, hrem⟩
    obtain rfl := Option.some.inj (hscan.symm.trans hlate)
    exact hrem rfl
  · induction n with
    | zero => exact .done crowded
    | succ n ih =>
      have hs : Step ⟨true, true⟩ crowded (.enforce thirtyDays) crowded := by
        have hrun : Step ⟨true, true⟩ crowded (.enforce thirtyDays) (enforceRetention ⟨true, true⟩ thirtyDays crowded).1 :=
          .enforce thirtyDays_fetched
        rwa [thirtyDays_keeps] at hrun
      exact .run hs ih

end WebAudit.Storage
