import WebAudit.Billing.Payment
import Mathlib.Data.Finset.Card

/-!
# Retention: warning about reports, and removing them

`services/storage/retention.ts`. A run fetches at most `batchSize` unremoved reports of completed scans, those
completed first, and goes through them one after another: a report past its boundary is removed, one whose boundary
is near is warned about, once. The boundary follows the plan that its owner has when the report is looked at
(`resolveEffectivePlan`), by a clock read for that alone.

A call that fails outside a `try` ends the run (`Outcome.thrown`). Between two runs, scans complete and plans change.

A run removes no report early, and none is warned about twice. That a report past its boundary is ever removed
takes more (`Steady`): the fetched reports must not be unexpired ones while an expired one waits behind them.
-/

namespace WebAudit.Storage

open WebAudit.Billing (SubscriptionStatus subscriptionOwnsPeriod)

def dayMs : ℤ := 86400000

/-- `RETENTION_WARNING_LEAD_DAYS`. -/
def retentionWarningLeadDays : ℤ := 3

def batchSize : ℕ := 500

/-! ### Rows -/

/-- What the removal of a report takes. -/
structure Content where
  issues : ℕ
  moduleResults : ℕ
  readinessVerdict : Bool
  overallScore : Option ℤ
  summary : Option String
  /-- `storageKey` of its rows of `Artifact`. -/
  artifactKeys : List String
  deriving DecidableEq

def Content.removed : Content := ⟨0, 0, false, none, none, []⟩

/-- A row of `Scan` whose state is `COMPLETED`. -/
structure Scan where
  userId : ℕ
  completedAt : Option ℤ
  retentionWarningSentAt : Option ℤ
  reportRemovedAt : Option ℤ
  content : Content
  deriving DecidableEq

/-- What a retention length is read of. -/
structure Subscription where
  status : SubscriptionStatus
  periodEnd : ℤ
  retentionDays : ℤ
  deriving DecidableEq

/-- The scans' ids are their positions. -/
structure System where
  scans : List Scan
  subscriptions : ℕ → Option Subscription
  /-- `retentionDays` of the free plan, if there is one. -/
  free : Option ℤ
  /-- The objects that rows of `Artifact` name. -/
  artifactStore : List String
  /-- The scans that have objects in the report storage. -/
  storage : List ℕ
  /-- The warnings handed to the mailer, and the removal that each announces. -/
  mails : List (ℕ × ℤ)

namespace System

variable (s : System)

/-- `resolveEffectivePlan(db, userId).retentionDays`; without a free plan it throws. -/
def effectiveRetention (userId : ℕ) (now : ℤ) : Option ℤ :=
  match s.subscriptions userId with
  | none => s.free
  | some subscription =>
    if subscriptionOwnsPeriod subscription.status subscription.periodEnd now then some subscription.retentionDays
    else s.free

def setScan (id : ℕ) (scan : Scan) : System := { s with scans := s.scans.set id scan }

/-- The transaction's writes. -/
def removeReport (id : ℕ) (scan : Scan) (now : ℤ) : System :=
  s.setScan id { scan with reportRemovedAt := some now, content := .removed }

/-- The deletions after the commit, one try for each key. -/
def deleteArtifacts (keys : List String) (deleted : String → Bool) : System :=
  { s with artifactStore := s.artifactStore.filter fun key => !(keys.contains key && deleted key) }

def deleteScanObjects (id : ℕ) (deleted : Bool) : System :=
  { s with storage := s.storage.filter fun i => !(i == id && deleted) }

/-- `retentionWarningSentAt` stamped, and the mail handed over. -/
def warn (id : ℕ) (scan : Scan) (now expiry : ℤ) : System :=
  { s.setScan id { scan with retentionWarningSentAt := some now } with mails := s.mails ++ [(id, expiry)] }

end System

/-! ### A run -/

structure RetentionDeps where
  storage : Bool
  artifactStore : Bool
  deriving DecidableEq

/-- What the calls made for one report answer. -/
structure Answers where
  /-- The clock in `resolveEffectivePlan`. -/
  clock : ℤ
  planRead : Bool
  /-- The transaction, or the stamp. -/
  update : Bool
  mail : Bool
  deleteArtifact : String → Bool
  deleteScanObjects : Bool

/-- All that a report's removal writes. -/
def System.remove (deps : RetentionDeps) (now : ℤ) (id : ℕ) (scan : Scan) (answers : Answers) (s : System) : System :=
  let s := s.removeReport id scan now
  let s := if deps.artifactStore then s.deleteArtifacts scan.content.artifactKeys answers.deleteArtifact else s
  if deps.storage then s.deleteScanObjects id answers.deleteScanObjects else s

inductive Outcome where
  | kept
  | warned
  | removed
  | thrown
  deriving DecidableEq

/-- `completedAt.getTime() + plan.retentionDays * DAY_MS`. -/
def boundary (completedAt retentionDays : ℤ) : ℤ := completedAt + retentionDays * dayMs

/-- One report of the batch, as the batch was fetched. -/
def enforceOne (deps : RetentionDeps) (now : ℤ) (id : ℕ) (fetched : Scan) (answers : Answers) (s : System) :
    System × Outcome :=
  match fetched.completedAt with
  | none => (s, .kept)
  | some completedAt =>
    match if answers.planRead then s.effectiveRetention fetched.userId answers.clock else none with
    | none => (s, .thrown)
    | some retentionDays =>
      if boundary completedAt retentionDays < now then
        match if answers.update then s.scans[id]? else none with
        | none => (s, .thrown)
        | some scan => (s.remove deps now id scan answers, .removed)
      else if boundary completedAt retentionDays ≤ now + retentionWarningLeadDays * dayMs ∧
          fetched.retentionWarningSentAt = none then
        match if answers.update then s.scans[id]? else none with
        | none => (s, .thrown)
        | some scan =>
          (s.warn id scan now (boundary completedAt retentionDays), if answers.mail then .warned else .thrown)
      else (s, .kept)

/-- A report of the batch. -/
structure Item where
  id : ℕ
  fetched : Scan
  answers : Answers

structure RetentionResult where
  warned : ℕ
  removed : ℕ
  deriving DecidableEq

/-- The loop; `none` when a call has thrown. -/
def enforceAll (deps : RetentionDeps) (now : ℤ) :
    List Item → System → RetentionResult → System × Option RetentionResult
  | [], s, result => (s, some result)
  | item :: items, s, result =>
    match enforceOne deps now item.id item.fetched item.answers s with
    | (s, .thrown) => (s, none)
    | (s, .kept) => enforceAll deps now items s result
    | (s, .warned) => enforceAll deps now items s { result with warned := result.warned + 1 }
    | (s, .removed) => enforceAll deps now items s { result with removed := result.removed + 1 }

structure Run where
  now : ℤ
  items : List Item

/-- `enforceRetention`, after its fetch. -/
def enforceRetention (deps : RetentionDeps) (run : Run) (s : System) : System × Option RetentionResult :=
  enforceAll deps run.now run.items s ⟨0, 0⟩

/-- A report that a fetch may return. -/
def System.Candidate (s : System) (id : ℕ) (scan : Scan) (completedAt : ℤ) : Prop :=
  s.scans[id]? = some scan ∧ scan.reportRemovedAt = none ∧ scan.completedAt = some completedAt

/-- What the query may answer: `completedAt` ascending, at most `batchSize`, ties in any order. -/
structure System.Fetches (s : System) (items : List Item) : Prop where
  candidate : ∀ item ∈ items, ∃ completedAt, s.Candidate item.id item.fetched completedAt
  distinct : (items.map (·.id)).Nodup
  sorted : items.Pairwise fun a b => ∀ p q, a.fetched.completedAt = some p → b.fetched.completedAt = some q → p ≤ q
  length : items.length ≤ batchSize
  /-- What is left out is there because the batch is full, and has completed no earlier. -/
  oldest : ∀ id scan completedAt, s.Candidate id scan completedAt → id ∉ items.map (·.id) →
    items.length = batchSize ∧ ∀ item ∈ items, ∀ p, item.fetched.completedAt = some p → p ≤ completedAt

inductive Action where
  | complete (scan : Scan)
  | subscribe (userId : ℕ) (subscription : Option Subscription)
  | changeFree (retentionDays : Option ℤ)
  | enforce (run : Run)

/-- A scan completes with keys of its own: `storageKey` is unique. -/
def System.Completes (s : System) (scan : Scan) : Prop :=
  scan.retentionWarningSentAt = none ∧ scan.reportRemovedAt = none ∧
    ∀ other ∈ s.scans, ∀ key ∈ other.content.artifactKeys, key ∉ scan.content.artifactKeys

inductive Step (deps : RetentionDeps) : System → Action → System → Prop where
  | complete {s scan} (h : s.Completes scan) :
      Step deps s (.complete scan)
        { s with
          scans := s.scans ++ [scan]
          artifactStore := s.artifactStore ++ scan.content.artifactKeys
          storage := s.storage ++ [s.scans.length] }
  | subscribe {s userId subscription} :
      Step deps s (.subscribe userId subscription)
        { s with subscriptions := Function.update s.subscriptions userId subscription }
  | changeFree {s retentionDays} : Step deps s (.changeFree retentionDays) { s with free := retentionDays }
  | enforce {s run} (h : s.Fetches run.items) : Step deps s (.enforce run) (enforceRetention deps run s).1

/-! ### What one report's turn does -/

/-- The report is past its boundary, by the plan that its owner has at `clock`. -/
def System.Past (s : System) (scan : Scan) (now clock : ℤ) : Prop :=
  ∃ completedAt retentionDays, scan.completedAt = some completedAt ∧
    s.effectiveRetention scan.userId clock = some retentionDays ∧ boundary completedAt retentionDays < now

variable {deps : RetentionDeps} {now clock : ℤ} {id i : ℕ} {fetched scan scan' : Scan} {answers : Answers} {s s' s'' : System}
  {o : Outcome} {items : List Item} {result : RetentionResult}

@[simp] theorem System.remove_scans :
    (s.remove deps now id scan answers).scans =
      s.scans.set id { scan with reportRemovedAt := some now, content := .removed } := by
  unfold System.remove
  dsimp only
  split <;> split <;> rfl

@[simp] theorem System.remove_mails : (s.remove deps now id scan answers).mails = s.mails := by
  unfold System.remove
  dsimp only
  split <;> split <;> rfl

/-- What has been subscribed to is the same in both states. -/
def SamePlans (s s' : System) : Prop := s'.subscriptions = s.subscriptions ∧ s'.free = s.free

theorem SamePlans.refl (s : System) : SamePlans s s := ⟨rfl, rfl⟩

theorem SamePlans.effectiveRetention (h : SamePlans s s') (userId : ℕ) :
    s'.effectiveRetention userId clock = s.effectiveRetention userId clock := by
  unfold System.effectiveRetention
  rw [h.1, h.2]

theorem SamePlans.past (h : SamePlans s s') : s'.Past scan now clock ↔ s.Past scan now clock := by
  unfold System.Past
  rw [h.effectiveRetention]

theorem System.samePlans_remove : SamePlans s (s.remove deps now id scan answers) := by
  unfold System.remove
  dsimp only
  split <;> split <;> exact ⟨rfl, rfl⟩

/-- A turn that changes something removes a report past its boundary, or stamps and warns of one that was not
stamped when it was fetched. -/
theorem enforceOne_cases (h : enforceOne deps now id fetched answers s = (s', o)) :
    s' = s ∨
    (s.Past fetched now answers.clock ∧
      ∃ scan, s.scans[id]? = some scan ∧ s' = s.remove deps now id scan answers) ∨
    (fetched.retentionWarningSentAt = none ∧
      ∃ scan expiry, s.scans[id]? = some scan ∧ s' = s.warn id scan now expiry) := by
  unfold enforceOne at h
  split at h
  · exact .inl (by simpa using (congrArg Prod.fst h).symm)
  · rename_i completedAt hc
    split at h
    · exact .inl (by simpa using (congrArg Prod.fst h).symm)
    · rename_i retentionDays hr
      have hplan : s.effectiveRetention fetched.userId answers.clock = some retentionDays := by
        split at hr
        · exact hr
        · cases hr
      split at h
      · rename_i hpast
        split at h
        · exact .inl (by simpa using (congrArg Prod.fst h).symm)
        · rename_i scan hscan
          split at hscan
          · exact .inr (.inl ⟨⟨completedAt, retentionDays, hc, hplan, hpast⟩, scan, hscan, by
              simpa using (congrArg Prod.fst h).symm⟩)
          · cases hscan
      · split at h
        · rename_i hdue
          split at h
          · exact .inl (by simpa using (congrArg Prod.fst h).symm)
          · rename_i scan hscan
            split at hscan
            · exact .inr (.inr ⟨hdue.2, scan, _, hscan, by simpa using (congrArg Prod.fst h).symm⟩)
            · cases hscan
        · exact .inl (by simpa using (congrArg Prod.fst h).symm)

/-- No call made for the report fails, and its owner has a plan. -/
def Item.Works (s : System) (item : Item) : Prop :=
  item.answers.planRead ∧ item.answers.update ∧ item.answers.mail ∧
    (s.effectiveRetention item.fetched.userId item.answers.clock).isSome

/-- A report past its boundary is removed in its turn, when no call fails. -/
theorem enforceOne_removes (deps : RetentionDeps) {item : Item} (hworks : item.Works s) (hpast : s.Past item.fetched now item.answers.clock)
    (hscan : s.scans[item.id]? = some scan) :
    enforceOne deps now item.id item.fetched item.answers s = (s.remove deps now item.id scan item.answers, .removed) := by
  obtain ⟨completedAt, retentionDays, hc, hplan, hb⟩ := hpast
  unfold enforceOne
  simp [hc, hworks.1, hplan, hb, hworks.2.1, hscan]

theorem enforceOne_works (deps : RetentionDeps) (now : ℤ) {item : Item} (hworks : item.Works s) (hscan : s.scans[item.id]? = some scan) :
    (enforceOne deps now item.id item.fetched item.answers s).2 ≠ .thrown := by
  obtain ⟨hread, hupdate, hmail, hplan⟩ := hworks
  obtain ⟨retentionDays, hplan⟩ := Option.isSome_iff_exists.mp hplan
  unfold enforceOne
  cases item.fetched.completedAt with
  | none => simp
  | some completedAt =>
    simp only [hread, if_true, hplan, hupdate, hscan, hmail]
    split
    · simp
    · split <;> simp

/-! ### What a turn leaves alone -/

/-- No two reports name one object. -/
def System.KeysDistinct (s : System) : Prop :=
  ∀ (i j : ℕ) (scan scan' : Scan) (key : String), s.scans[i]? = some scan → s.scans[j]? = some scan' → key ∈ scan.content.artifactKeys →
    key ∈ scan'.content.artifactKeys → i = j

/-- The report is as it was: its rows and its objects. -/
structure Intact (s s' : System) (id : ℕ) (scan : Scan) (scan' : Scan) : Prop where
  content : scan'.content = scan.content
  reportRemovedAt : scan'.reportRemovedAt = scan.reportRemovedAt
  artifacts : ∀ key ∈ scan.content.artifactKeys, key ∈ s.artifactStore → key ∈ s'.artifactStore
  objects : id ∈ s.storage → id ∈ s'.storage

theorem Intact.refl (s : System) (id : ℕ) (scan : Scan) : Intact s s id scan scan :=
  ⟨rfl, rfl, fun _ _ h => h, fun h => h⟩

theorem Intact.trans {scan'' : Scan} (h : Intact s s' id scan scan') (h' : Intact s' s'' id scan' scan'') :
    Intact s s'' id scan scan'' where
  content := h'.content.trans h.content
  reportRemovedAt := h'.reportRemovedAt.trans h.reportRemovedAt
  artifacts key hk hs := h'.artifacts key (h.content ▸ hk) (h.artifacts key hk hs)
  objects hs := h'.objects (h.objects hs)

theorem System.scans_remove_ne (h : i ≠ id) : (s.remove deps now id scan answers).scans[i]? = s.scans[i]? := by
  rw [remove_scans, List.getElem?_set_ne (Ne.symm h)]

theorem System.scans_warn_ne {expiry : ℤ} (h : i ≠ id) : (s.warn id scan now expiry).scans[i]? = s.scans[i]? :=
  List.getElem?_set_ne (Ne.symm h)

/-- The removal of a report takes nothing of another one. -/
theorem System.intact_remove {other : Scan} (hkeys : s.KeysDistinct) (hi : s.scans[i]? = some other)
    (hid : s.scans[id]? = some scan) (hne : i ≠ id) : Intact s (s.remove deps now id scan answers) i other other := by
  refine ⟨rfl, rfl, fun key hk hs => ?_, fun hs => ?_⟩
  · have hnot : key ∉ scan.content.artifactKeys := fun hk' => hne (hkeys i id other scan key hi hid hk hk')
    unfold System.remove
    dsimp only
    split <;> split <;> simp [deleteArtifacts, deleteScanObjects, removeReport, setScan, hs, hnot]
  · unfold System.remove
    dsimp only
    split <;> split <;> simp [deleteArtifacts, deleteScanObjects, removeReport, setScan, hs, hne]

/-- Rows that keep their keys, or lose them, keep them distinct. -/
theorem System.KeysDistinct.set {scan' : Scan} (h : s.KeysDistinct) (hid : s.scans[id]? = some scan)
    (hsub : scan'.content.artifactKeys ⊆ scan.content.artifactKeys) (hs : s'.scans = s.scans.set id scan') :
    s'.KeysDistinct := by
  have row : ∀ (i : ℕ) (r : Scan), s'.scans[i]? = some r → ∃ r₀ : Scan, s.scans[i]? = some r₀ ∧ r.content.artifactKeys ⊆ r₀.content.artifactKeys := by
    intro i r hr
    rw [hs] at hr
    by_cases hi : id = i
    · subst hi
      rw [List.getElem?_set_self (List.getElem?_eq_some_iff.mp hid).1] at hr
      obtain rfl := Option.some.inj hr
      exact ⟨scan, hid, hsub⟩
    · rw [List.getElem?_set_ne hi] at hr
      exact ⟨r, hr, fun _ h => h⟩
  intro i j a b key ha hb hka hkb
  obtain ⟨a₀, ha₀, hsa⟩ := row i a ha
  obtain ⟨b₀, hb₀, hsb⟩ := row j b hb
  exact h i j a₀ b₀ key ha₀ hb₀ (hsa hka) (hsb hkb)

/-- The warnings handed over for the report. -/
def System.warnings (s : System) (id : ℕ) : ℕ := (s.mails.map Prod.fst).count id

/-- What is kept about a whole table: one warning at most, and it is stamped; keys of their own. -/
structure Kept (s : System) : Prop where
  warned : ∀ id, s.warnings id ≤ 1
  stamped : ∀ id, 0 < s.warnings id → ∃ scan, s.scans[id]? = some scan ∧ scan.retentionWarningSentAt ≠ none
  keys : s.KeysDistinct

theorem System.warnings_warn {expiry : ℤ} :
    (s.warn id scan now expiry).warnings i = s.warnings i + if id = i then 1 else 0 := by
  unfold System.warnings warn
  simp [List.count_append, List.count_singleton]

/-- A turn keeps it, when the row is as fetched. -/
theorem Kept.turn (h : Kept s) (hfetched : s.scans[id]? = some fetched)
    (hdo : enforceOne deps now id fetched answers s = (s', o)) : Kept s' := by
  have hlen := (List.getElem?_eq_some_iff.mp hfetched).1
  rcases enforceOne_cases hdo with rfl | ⟨-, scan, hscan, rfl⟩ | ⟨hnone, scan, expiry, hscan, rfl⟩
  · exact h
  · have hw : ∀ i, (s.remove deps now id scan answers).warnings i = s.warnings i := fun i => by
      unfold System.warnings
      rw [System.remove_mails]
    refine ⟨fun i => hw i ▸ h.warned i, fun i hi => ?_, h.keys.set hscan (List.nil_subset _) System.remove_scans⟩
    obtain ⟨row, hrow, hst⟩ := h.stamped i (hw i ▸ hi)
    by_cases hne : i = id
    · subst hne
      obtain rfl := Option.some.inj (hrow.symm.trans hscan)
      exact ⟨{ row with reportRemovedAt := some now, content := .removed },
        by rw [System.remove_scans, List.getElem?_set_self hlen], hst⟩
    · exact ⟨row, by rw [System.scans_remove_ne hne, hrow], hst⟩
  · obtain rfl := Option.some.inj (hfetched.symm.trans hscan)
    have hzero : s.warnings id = 0 := by
      by_contra hw
      obtain ⟨row, hrow, hst⟩ := h.stamped id (Nat.pos_of_ne_zero hw)
      obtain rfl := Option.some.inj (hrow.symm.trans hscan)
      exact hst hnone
    have hrows : (s.warn id fetched now expiry).scans =
        s.scans.set id { fetched with retentionWarningSentAt := some now } := rfl
    refine ⟨fun i => ?_, fun i hi => ?_, h.keys.set hscan (by exact List.Subset.refl _) hrows⟩
    · rw [System.warnings_warn]
      by_cases hne : id = i
      · subst hne
        simp [hzero]
      · simpa [hne] using h.warned i
    · by_cases hne : i = id
      · subst hne
        exact ⟨_, List.getElem?_set_self hlen, by simp⟩
      · rw [System.warnings_warn, if_neg (Ne.symm hne)] at hi
        obtain ⟨row, hrow, hst⟩ := h.stamped i hi
        exact ⟨row, by rw [System.scans_warn_ne hne, hrow], hst⟩

/-- What one turn does to any report: nothing, or it is the one whose turn it is, past its boundary. -/
theorem enforceOne_intact (hkeys : s.KeysDistinct) (hfetched : s.scans[id]? = some fetched)
    (hdo : enforceOne deps now id fetched answers s = (s', o)) (hi : s.scans[i]? = some scan) :
    (∃ scan', s'.scans[i]? = some scan' ∧ Intact s s' i scan scan') ∨ (i = id ∧ s.Past scan now answers.clock) := by
  rcases enforceOne_cases hdo with rfl | ⟨hpast, row, hrow, rfl⟩ | ⟨-, row, expiry, hrow, rfl⟩
  · exact .inl ⟨scan, hi, .refl _ i scan⟩
  · by_cases hne : i = id
    · subst hne
      obtain rfl := Option.some.inj (hfetched.symm.trans hi)
      exact .inr ⟨rfl, hpast⟩
    · exact .inl ⟨scan, by rw [System.scans_remove_ne hne, hi], System.intact_remove hkeys hi hrow hne⟩
  · refine .inl ?_
    by_cases hne : i = id
    · subst hne
      obtain rfl := Option.some.inj (hrow.symm.trans hi)
      exact ⟨_, List.getElem?_set_self (List.getElem?_eq_some_iff.mp hi).1, rfl, rfl, fun _ _ h => h, fun h => h⟩
    · exact ⟨scan, by rw [System.scans_warn_ne hne, hi], rfl, rfl, fun _ _ h => h, fun h => h⟩

theorem enforceOne_samePlans (hdo : enforceOne deps now id fetched answers s = (s', o)) : SamePlans s s' := by
  rcases enforceOne_cases hdo with rfl | ⟨-, row, -, rfl⟩ | ⟨-, row, expiry, -, rfl⟩
  · exact .refl _
  · exact System.samePlans_remove
  · exact ⟨rfl, rfl⟩

theorem enforceOne_scans_ne (hdo : enforceOne deps now id fetched answers s = (s', o)) (hne : i ≠ id) :
    s'.scans[i]? = s.scans[i]? := by
  rcases enforceOne_cases hdo with rfl | ⟨-, row, -, rfl⟩ | ⟨-, row, expiry, -, rfl⟩
  · rfl
  · exact System.scans_remove_ne hne
  · exact System.scans_warn_ne hne

/-! ### What a run does -/

theorem enforceAll_cons (item : Item) :
    enforceAll deps now (item :: items) s result =
      match enforceOne deps now item.id item.fetched item.answers s with
      | (s, .thrown) => (s, none)
      | (s, .kept) => enforceAll deps now items s result
      | (s, .warned) => enforceAll deps now items s { result with warned := result.warned + 1 }
      | (s, .removed) => enforceAll deps now items s { result with removed := result.removed + 1 } := rfl

/-- A loop ends after an item's turn, or goes on from there. -/
theorem enforceAll_cons_cases (items : List Item) (result : RetentionResult) (item : Item) (hdo : enforceOne deps now item.id item.fetched item.answers s = (s', o)) :
    (o = .thrown ∧ (enforceAll deps now (item :: items) s result).1 = s') ∨
      (o ≠ .thrown ∧ ∃ result', enforceAll deps now (item :: items) s result = enforceAll deps now items s' result') := by
  rw [enforceAll_cons, hdo]
  cases o with
  | thrown => exact .inl ⟨rfl, rfl⟩
  | kept => exact .inr ⟨by simp, _, rfl⟩
  | warned => exact .inr ⟨by simp, _, rfl⟩
  | removed => exact .inr ⟨by simp, _, rfl⟩

/-- The reports still to come are as they were fetched, and each comes once. -/
structure Fresh (s : System) (items : List Item) : Prop where
  current : ∀ item ∈ items, s.scans[item.id]? = some item.fetched
  distinct : (items.map (·.id)).Nodup

theorem Fresh.next {item : Item} (h : Fresh s (item :: items))
    (hdo : enforceOne deps now item.id item.fetched item.answers s = (s', o)) : Fresh s' items := by
  have hnodup := h.distinct
  rw [List.map_cons, List.nodup_cons] at hnodup
  refine ⟨fun other hother => ?_, hnodup.2⟩
  have hne : other.id ≠ item.id := fun heq => hnodup.1 (heq ▸ List.mem_map_of_mem hother)
  rw [enforceOne_scans_ne hdo hne]
  exact h.current other (List.mem_cons_of_mem _ hother)

theorem System.Fetches.fresh (h : s.Fetches items) : Fresh s items where
  current item hitem := by
    obtain ⟨_, hc, -, -⟩ := h.candidate item hitem
    exact hc
  distinct := h.distinct

theorem Kept.all (h : Kept s) (hfresh : Fresh s items) : Kept (enforceAll deps now items s result).1 := by
  induction items generalizing s result with
  | nil => exact h
  | cons item items ih =>
    rcases hdo : enforceOne deps now item.id item.fetched item.answers s with ⟨u, o⟩
    have hu := h.turn (hfresh.current item (by simp)) hdo
    rcases enforceAll_cons_cases items result item hdo with ⟨-, heq⟩ | ⟨-, result', heq⟩
    · exact heq ▸ hu
    · exact heq ▸ ih hu (hfresh.next hdo)

/-- **A run takes nothing early**: a report that it does not leave as it was is one of its batch and past its boundary. -/
theorem enforceAll_intact (h : Kept s) (hfresh : Fresh s items) (hi : s.scans[i]? = some scan) :
    (∃ scan', (enforceAll deps now items s result).1.scans[i]? = some scan' ∧
      Intact s (enforceAll deps now items s result).1 i scan scan') ∨
    ∃ item ∈ items, item.id = i ∧ s.Past item.fetched now item.answers.clock := by
  induction items generalizing s scan result with
  | nil => exact .inl ⟨scan, hi, .refl s i scan⟩
  | cons item items ih =>
    rcases hdo : enforceOne deps now item.id item.fetched item.answers s with ⟨u, o⟩
    have hcur := hfresh.current item (by simp)
    rcases enforceOne_intact h.keys hcur hdo hi with ⟨scan', hscan', hint⟩ | ⟨rfl, hpast⟩
    · rcases enforceAll_cons_cases items result item hdo with ⟨-, heq⟩ | ⟨-, result', heq⟩
      · rw [heq]
        exact .inl ⟨scan', hscan', hint⟩
      · rw [heq]
        rcases ih (h.turn hcur hdo) (hfresh.next hdo) hscan' with
          ⟨scan'', hscan'', hint'⟩ | ⟨other, hother, hid, hpast⟩
        · exact .inl ⟨scan'', hscan'', hint.trans hint'⟩
        · exact .inr ⟨other, List.mem_cons_of_mem _ hother, hid, (enforceOne_samePlans hdo).past.mp hpast⟩
    · obtain rfl := Option.some.inj (hcur.symm.trans hi)
      exact .inr ⟨item, by simp, rfl, hpast⟩

/-- The report's removal is recorded. -/
def System.Removed (s : System) (id : ℕ) : Prop := ∃ scan : Scan, s.scans[id]? = some scan ∧ scan.reportRemovedAt ≠ none

theorem System.removed_remove (hid : s.scans[id]? = some scan) : (s.remove deps now id scan answers).Removed id :=
  ⟨_, by rw [remove_scans]; exact List.getElem?_set_self (List.getElem?_eq_some_iff.mp hid).1, by simp⟩

theorem System.Removed.turn (h : s.Removed i) (hdo : enforceOne deps now id fetched answers s = (s', o)) : s'.Removed i := by
  by_cases hne : i = id
  · subst hne
    rcases enforceOne_cases hdo with rfl | ⟨-, row, hrow, rfl⟩ | ⟨-, row, expiry, hrow, rfl⟩
    · exact h
    · exact removed_remove hrow
    · obtain ⟨scan, hscan, hrem⟩ := h
      obtain rfl := Option.some.inj (hrow.symm.trans hscan)
      exact ⟨_, List.getElem?_set_self (List.getElem?_eq_some_iff.mp hrow).1, hrem⟩
  · obtain ⟨scan, hscan, hrem⟩ := h
    exact ⟨scan, by rw [enforceOne_scans_ne hdo hne, hscan], hrem⟩

theorem System.Removed.all (h : s.Removed i) : (enforceAll deps now items s result).1.Removed i := by
  induction items generalizing s result with
  | nil => exact h
  | cons item items ih =>
    rcases hdo : enforceOne deps now item.id item.fetched item.answers s with ⟨u, o⟩
    rcases enforceAll_cons_cases items result item hdo with ⟨-, heq⟩ | ⟨-, result', heq⟩
    · exact heq ▸ h.turn hdo
    · exact heq ▸ ih (h.turn hdo)

/-- **A report of the batch past its boundary is removed**, when no call fails up to its turn. -/
theorem enforceAll_removes {pre post : List Item} {item : Item} (hitems : items = pre ++ item :: post) (hfresh : Fresh s items)
    (hworks : ∀ other ∈ pre ++ [item], other.Works s) (hpast : s.Past item.fetched now item.answers.clock) :
    (enforceAll deps now items s result).1.Removed item.id := by
  induction pre generalizing s items result with
  | nil =>
    subst hitems
    have hcur := hfresh.current item (by simp)
    have hdo := enforceOne_removes deps (hworks item (by simp)) hpast hcur
    rw [List.nil_append, enforceAll_cons, hdo]
    exact (System.removed_remove hcur).all
  | cons first pre ih =>
    subst hitems
    rcases hdo : enforceOne deps now first.id first.fetched first.answers s with ⟨u, o⟩
    have hcur := hfresh.current first (by simp)
    have hok := enforceOne_works deps now (hworks first (by simp)) hcur
    rcases enforceAll_cons_cases (pre ++ item :: post) result first hdo with ⟨ho, -⟩ | ⟨-, result', heq⟩
    · rw [hdo] at hok
      exact absurd ho hok
    · have hplans := enforceOne_samePlans hdo
      rw [List.cons_append, heq]
      refine ih rfl (hfresh.next hdo) (fun other hother => ?_) (hplans.past.mpr hpast)
      obtain ⟨hread, hupdate, hmail, hplan⟩ := hworks other (List.mem_cons_of_mem _ hother)
      exact ⟨hread, hupdate, hmail, by rw [hplans.effectiveRetention]; exact hplan⟩

end WebAudit.Storage
