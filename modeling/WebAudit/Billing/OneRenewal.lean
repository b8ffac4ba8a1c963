import WebAudit.Billing.Renewal
import WebAudit.Lib.Pool
import WebAudit.Lib.Runs

/-!
# One renewal for each period

Everything that writes one user's subscription at once: workers whose
`renewDueSubscriptions` found it due, renewal events, `subscribe`, `changePlan`,
`cancelSubscription` and `assignPlan`, each call or transaction of each of them in any
order, and any of them dying in between. Every renewal should enter a period of its own,
for a subscription that was neither cancelled nor assigned by an operator meanwhile, and
the credits of one period should be gone before those of the next are granted.

`Office` is the state of it all. What is remembered besides the tables is the number of
writes to the row (`version`), and the *renewal chain*: the lots granted by the latest
`subscribe` and by the renewals since, each with the end of the period it was for, and the
ends of the periods entered.

The write of a renewal does not look at the row again, so two workers that find the row
due enter the same period twice (`renewed_twice`). It comes out right in every run in which
nothing is written to the row between a renewal's first read and its write, and in which no
event renews a subscription that an operator assigned (`Undisturbed`,
`one_renewal_per_period`).
-/

namespace WebAudit.Billing

open WebAudit.Lib WebAudit.Credits

/-- A renewal in progress. -/
structure Renewer where
  input : RenewInput
  /-- A sweep found the subscription due; otherwise an event asks for the renewal. -/
  due : Bool
  /-- How many writes the row had seen when the renewal first read it. -/
  seen : ℕ
  pc : RenewPc
  deriving DecidableEq

/-- A link of the renewal chain: a lot, and the end of the period it was granted for. -/
structure Link where
  lotId : ℕ
  period : ℤ
  deriving DecidableEq

/-- The store, everyone at work on it, and the renewal chain. -/
structure Office where
  store : Store
  version : ℕ
  renewers : ℕ → Option Renewer
  chain : List Link
  /-- The ends of the periods that the subscription entered. -/
  entered : List ℤ

inductive OfficeAction where
  /-- A worker's `renewDueSubscriptions` finds the subscription due. -/
  | find (worker : ℕ) (now : ℤ)
  /-- An event's handler calls `renewSubscription`. -/
  | event (worker : ℕ) (input : RenewInput)
  /-- A renewal makes its next call. -/
  | advance (worker : ℕ) (clock : ℤ)
  /-- A renewal dies, or its caller goes on. -/
  | leave (worker : ℕ)
  | subscribe (input : SubscribeInput) (clock : ℤ)
  | changePlan (planId : String)
  | cancel
  | assign (input : AssignInput) (now : ℤ)
  deriving DecidableEq

/-- The rows that `renewDueSubscriptions` selects. -/
def Subscription.isDue (sub : Subscription) (now : ℤ) : Bool :=
  (sub.status = .ACTIVE || sub.status = .PAST_DUE) && sub.periodEnd ≤ now && !sub.adminAssigned

/-- Start a renewal at an idle worker. -/
def Office.begin (o : Office) (worker : ℕ) (r : Renewer) : Option Office :=
  match o.renewers worker with
  | some _ => none
  | none => some { o with renewers := Function.update o.renewers worker (some r) }

/-- A committed write to the row, by something that is not a renewal. -/
def Office.wrote (o : Office) (s : Store) : Office := { o with store := s, version := o.version + 1 }

/-- What a call that writes the row leads to: a write, or nothing when it throws. -/
def Office.after {α : Type} (o : Office) : Except BillingError α × Store → Office
  | (.error _, s) => { o with store := s }
  | (.ok _, s) => o.wrote s

section Steps

variable (plans : String → Option Plan)

/-- A renewal moves on. -/
def Office.move (o : Office) (worker : ℕ) (r : Renewer) (s : Store) : Office :=
  { o with store := s, renewers := Function.update o.renewers worker (some r) }

/-- The next call of a renewal, and what it adds to what is remembered. -/
def Office.advance (o : Office) (worker : ℕ) (r : Renewer) (clock : ℤ) : Office :=
  let (pc', s') := RenewPc.step plans r.input clock r.pc o.store
  let seen := if r.pc = .read ∧ r.due = false then o.version else r.seen
  let o' := o.move worker { r with seen := seen, pc := pc' } s'
  match r.pc, pc' with
  | .lapse, .returned _ => { o' with version := o.version + 1 }
  | .write sub plan, .returned _ =>
    { o' with
      version := o.version + 1
      chain := if plan.isActive then o.chain ++ [⟨o.store.ledger.lots.length, nextEnd sub r.input.now⟩] else o.chain
      entered := o.entered ++ [nextEnd sub r.input.now] }
  | _, _ => o'

/-- What an action leads to, where it is possible. -/
def Office.next (o : Office) : OfficeAction → Option Office
  | .find worker now =>
    match o.store.subscription with
    | none => none
    | some sub =>
      if sub.isDue now then o.begin worker ⟨⟨now, none⟩, true, o.version, .read⟩ else none
  | .event worker input => o.begin worker ⟨input, false, o.version, .read⟩
  | .advance worker clock => (o.renewers worker).map fun r => o.advance plans worker r clock
  | .leave worker => some { o with renewers := Function.update o.renewers worker none }
  | .subscribe input clock =>
    match loadSubscribablePlan plans input.planId with
    | .error _ => none
    | .ok plan =>
      match (subscribeTransaction input plan clock).run o.store with
      | (.error _, s) => some { o with store := s }
      | (.ok _, s) =>
        some
          { o.wrote s with
            chain := [⟨o.store.ledger.lots.length, input.now + periodMs⟩], entered := [input.now + periodMs] }
  | .changePlan planId =>
    match loadSubscribablePlan plans planId with
    | .error _ => none
    | .ok _ => some (o.after ((changePlanUpdate planId).run o.store))
  | .cancel => some (o.after (cancelUpdate.run o.store))
  | .assign input now => some (o.after ((assignTransaction plans input now).run o.store))

/-- The office as a transition system. -/
def Office.Step (o : Office) (a : OfficeAction) (o' : Office) : Prop := o.next plans a = some o'

/-- The condition on an action: a renewal writes only when the row was not written since it first
read it, and an event does not read a row that an operator assigned. -/
def Office.undisturbed (o : Office) (a : OfficeAction) : Bool :=
  match a with
  | .advance worker _ =>
    match o.renewers worker with
    | none => true
    | some r =>
      match r.pc with
      | .read => r.due || (match o.store.subscription with
        | none => true
        | some row => !row.adminAssigned)
      | .write _ _ => r.seen = o.version
      | _ => true
  | _ => true

/-- The condition on a step. -/
def Undisturbed (o : Office) (a : OfficeAction) (_ : Office) : Prop := o.undisturbed a = true

end Steps

/-! ### The invariant -/

/-- The lot holds credits. -/
def Store.holds (s : Store) (lotId : ℕ) : Prop := ∃ l, s.ledger.lots[lotId]? = some l ∧ 0 < l.amountRemaining

/-- The chain is in order: one link for each period, one period for each entry, and at most one
lot that holds credits. Unless an operator assigned the plan, no period entered ends after the
current one, and the credits of the chain die with it at the latest. -/
structure Office.Settled (o : Office) : Prop where
  known : ∀ c ∈ o.chain, c.lotId < o.store.ledger.lots.length
  entered : o.entered.Nodup
  links : (o.chain.map (·.period)).Nodup
  periods : ∀ c ∈ o.chain, c.period ∈ o.entered
  single : ∀ c ∈ o.chain, ∀ c' ∈ o.chain, o.store.holds c.lotId → o.store.holds c'.lotId → c = c'
  current : ∀ row, o.store.subscription = some row → row.adminAssigned = false →
    (∀ t ∈ o.entered, t ≤ row.periodEnd) ∧
    ∀ c ∈ o.chain, ∀ l, o.store.ledger.lots[c.lotId]? = some l → 0 < l.amountRemaining →
      ∃ t, l.expiresAt = some t ∧ t ≤ row.periodEnd

/-- What a renewal relies on, as long as the row was not written since it first read it. -/
def Renewer.Relies (o : Office) (r : Renewer) : Prop :=
  r.seen ≤ o.version ∧ (r.seen = o.version →
    match r.pc with
    | .read => r.due = true → ∀ row, o.store.subscription = some row → row.adminAssigned = false
    | .sweep sub _ => o.store.subscription = some sub ∧ sub.adminAssigned = false
    | .write sub _ => o.store.subscription = some sub ∧ sub.adminAssigned = false ∧ sub.lapses = false ∧
        ∀ c ∈ o.chain, ¬ o.store.holds c.lotId
    | _ => True)

/-- The invariant of the office. -/
structure Office.Sound (o : Office) : Prop where
  settled : o.Settled
  relies : Everyone (Renewer.Relies o) o.renewers

/-! ### What the steps do to lots and row -/

/-- A sweep rewrites every lot, or fails without a trace. -/
theorem sweep_lots (plans : String → Option Plan) (input : RenewInput) (sub : Subscription) (plan : Plan) (clock : ℤ)
    (s : Store) {pc' : RenewPc} {s' : Store}
    (h : RenewPc.step plans input clock (.sweep sub plan) s = (pc', s')) :
    s'.subscription = s.subscription ∧
      ((pc' = (if sub.lapses then .lapse else .write sub plan) ∧
          s'.ledger.lots = s.ledger.lots.map (Lot.sweep sub.periodEnd clock)) ∨
        (∃ e, pc' = .threw e) ∧ s' = s) := by
  unfold RenewPc.step at h
  dsimp only at h
  rcases hr : (expireRenewedLots sub.periodEnd clock).run s.ledger with ⟨e | r, l⟩
  · obtain rfl := expireRenewedLots_safe _ _ _ _ _ hr
    rw [onLedger_error hr] at h
    cases h
    exact ⟨rfl, Or.inr ⟨⟨_, rfl⟩, rfl⟩⟩
  · rw [onLedger_ok hr] at h
    cases h
    refine ⟨rfl, Or.inl ⟨rfl, ?_⟩⟩
    rcases expireRenewedLots_ok hr with ⟨hl, hnone⟩ | ⟨t, -, -, -, -, -, hl⟩
    · subst hl
      symm
      refine (List.map_congr_left fun lot hlot => ?_).trans (List.map_id _)
      have : lot.isDue sub.periodEnd = false := by
        simpa using List.filter_eq_nil_iff.mp hnone lot hlot
      simp [Lot.sweep, this]
    · rw [hl]
      rfl

/-- The write of a renewal moves the row and opens a lot if the plan is active, or does nothing. -/
theorem write_cases (plans : String → Option Plan) (input : RenewInput) {row : Subscription} (sub : Subscription)
    (plan : Plan) (clock : ℤ) {s s' : Store} {pc' : RenewPc} (hs : s.subscription = some row)
    (h : RenewPc.step plans input clock (.write sub plan) s = (pc', s')) :
    ((∃ m, pc' = .returned m) ∧ s'.subscription = some (row.renewed sub input.now) ∧
      s'.ledger.lots = if plan.isActive then s.ledger.lots ++ [(renewalGrant input sub plan).lot clock] else s.ledger.lots) ∨
    ((pc' = .reread ∨ ∃ e, pc' = .threw e) ∧ s' = s) := by
  unfold RenewPc.step at h
  dsimp only at h
  rcases hw : (writePeriod input sub plan clock).run s with ⟨e | m, u⟩
  · right
    obtain rfl := Db.transaction_error hw
    rw [hw] at h
    split at h
    · rename_i heq
      cases heq
    · rename_i heq
      cases heq
      cases h
      exact ⟨Or.inl rfl, rfl⟩
    · rename_i heq
      cases heq
      cases h
      exact ⟨Or.inr ⟨_, rfl⟩, rfl⟩
  · left
    rw [hw] at h
    cases h
    refine ⟨⟨m, rfl⟩, ?_⟩
    unfold writePeriod at hw
    rw [Db.transaction_ok] at hw
    obtain ⟨updated, v, hv, hw⟩ := Db.bind_ok.mp hw
    rw [updateSubscription_run _ hs] at hv
    cases hv
    by_cases ha : plan.isActive
    · rw [if_pos ha] at hw
      obtain ⟨g, w, hg, hr⟩ := Db.bind_ok.mp hw
      cases hr
      obtain ⟨l, hl, rfl⟩ := Db.within_ok.mp hg
      obtain ⟨-, -, rfl⟩ := grantLot_ok hl
      rw [if_pos ha]
      exact ⟨rfl, rfl⟩
    · rw [if_neg ha] at hw
      cases hw
      rw [if_neg ha]
      exact ⟨rfl, rfl⟩

theorem subscribe_ok {input : SubscribeInput} {plan : Plan} {clock : ℤ} {s s' : Store} {m : SubscriptionSummary}
    (h : (subscribeTransaction input plan clock).run s = (.ok m, s')) :
    s'.subscription = some input.row ∧
      ∃ l : Lot, l.expiresAt = some (input.now + periodMs) ∧ s'.ledger.lots = s.ledger.lots ++ [l] := by
  unfold subscribeTransaction at h
  rw [Db.transaction_ok, Db.run_modify_bind] at h
  obtain ⟨g, w, hg, hr⟩ := Db.bind_ok.mp h
  cases hr
  obtain ⟨l, hl, rfl⟩ := Db.within_ok.mp hg
  obtain ⟨-, -, rfl⟩ := grantLot_ok hl
  exact ⟨rfl, _, rfl, rfl⟩

theorem updateSubscription_ok {f : Subscription → Subscription} {s s' : Store} {sub : Subscription}
    (h : (updateSubscription f).run s = (.ok sub, s')) :
    ∃ row, s.subscription = some row ∧ s' = { s with subscription := some (f row) } := by
  rcases hs : s.subscription with _ | row
  · unfold updateSubscription at h
    rw [Db.run_get_bind, hs] at h
    cases h
  · rw [updateSubscription_run f hs] at h
    cases h
    exact ⟨row, rfl, rfl⟩

theorem updateSubscription_safe (f : Subscription → Subscription) : Db.Safe (updateSubscription f) := by
  intro s e s' h
  rcases hs : s.subscription with _ | row
  · unfold updateSubscription at h
    rw [Db.run_get_bind, hs] at h
    cases h
    rfl
  · rw [updateSubscription_run f hs] at h
    cases h

/-- An assignment touches no credits. The row it leaves is the old one, expired, or an assigned one. -/
theorem assign_ok {plans : String → Option Plan} {input : AssignInput} {now : ℤ} {s s' : Store}
    (h : (assignTransaction plans input now).run s = (.ok (), s')) :
    s'.ledger = s.ledger ∧ ∀ row', s'.subscription = some row' → row'.adminAssigned = false →
      ∃ row, s.subscription = some row ∧ row.adminAssigned = false ∧ row.periodEnd = row'.periodEnd := by
  unfold assignTransaction at h
  rw [Db.transaction_ok] at h
  split at h
  · cases h
    refine ⟨rfl, fun row' hrow' hadm => ?_⟩
    obtain ⟨row, hrow, rfl⟩ := Option.map_eq_some_iff.mp hrow'
    exact ⟨row, hrow, hadm, rfl⟩
  · split at h
    · cases h
    · split at h
      · cases h
        refine ⟨rfl, fun row' hrow' hadm => ?_⟩
        cases hrow'
        cases hadm
      · cases h

/-! ### Every step keeps the invariant -/

/-- A lot that holds credits after a sweep is as it was before. -/
theorem swept_lot {lots : List Lot} {asOf clock : ℤ} {i : ℕ} {l : Lot}
    (h : (lots.map (Lot.sweep asOf clock))[i]? = some l) (hpos : 0 < l.amountRemaining) :
    lots[i]? = some l ∧ l.isDue asOf = false := by
  rw [List.getElem?_map] at h
  obtain ⟨k, hk, rfl⟩ := Option.map_eq_some_iff.mp h
  by_cases hd : k.isDue asOf
  · simp [Lot.sweep, hd] at hpos
  · have hsame : Lot.sweep asOf clock k = k := by simp [Lot.sweep, hd]
    rw [hsame]
    exact ⟨hk, by simpa using hd⟩

theorem nextEnd_gt (sub : Subscription) (now : ℤ) : sub.periodEnd < nextEnd sub now := by
  have : (0 : ℤ) < periodMs := by decide
  unfold nextEnd nextStart
  split <;> omega

namespace Office

variable {o o' : Office}

/-- The lots of the chain are what they were, except that some hold no credits any more. -/
theorem Settled.drained (h : o.Settled) (hchain : o'.chain = o.chain) (hentered : o'.entered = o.entered)
    (hrow : o'.store.subscription = o.store.subscription)
    (hlen : o.store.ledger.lots.length ≤ o'.store.ledger.lots.length)
    (hlots : ∀ c ∈ o.chain, ∀ l, o'.store.ledger.lots[c.lotId]? = some l → 0 < l.amountRemaining →
      o.store.ledger.lots[c.lotId]? = some l) : o'.Settled where
  known c hc := lt_of_lt_of_le (h.known c (hchain ▸ hc)) hlen
  entered := hentered ▸ h.entered
  links := hchain ▸ h.links
  periods c hc := hentered ▸ h.periods c (hchain ▸ hc)
  single c hc c' hc' hh hh' := by
    rw [hchain] at hc hc'
    obtain ⟨l, hl, hpos⟩ := hh
    obtain ⟨l', hl', hpos'⟩ := hh'
    exact h.single c hc c' hc' ⟨l, hlots c hc l hl hpos, hpos⟩ ⟨l', hlots c' hc' l' hl' hpos', hpos'⟩
  current row hr hadm := by
    rw [hrow] at hr
    obtain ⟨h₁, h₂⟩ := h.current row hr hadm
    rw [hentered, hchain]
    exact ⟨h₁, fun c hc l hl hpos => h₂ c hc l (hlots c hc l hl hpos) hpos⟩

/-- A write to the row that touches no credits, and does not undo an assignment. -/
theorem Settled.wrote (h : o.Settled) (hledger : o'.store.ledger = o.store.ledger)
    (hrow : ∀ row', o'.store.subscription = some row' → row'.adminAssigned = false →
      ∃ row, o.store.subscription = some row ∧ row.adminAssigned = false ∧ row.periodEnd = row'.periodEnd)
    (hchain : o'.chain = o.chain) (hentered : o'.entered = o.entered) : o'.Settled where
  known c hc := by
    rw [hledger]
    exact h.known c (hchain ▸ hc)
  entered := hentered ▸ h.entered
  links := hchain ▸ h.links
  periods c hc := hentered ▸ h.periods c (hchain ▸ hc)
  single c hc c' hc' hh hh' := by
    unfold Store.holds at hh hh'
    rw [hledger] at hh hh'
    exact h.single c (hchain ▸ hc) c' (hchain ▸ hc') hh hh'
  current row' hr hadm := by
    obtain ⟨row, hrow, hadm', hend⟩ := hrow row' hr hadm
    have := h.current row hrow hadm'
    rw [hend] at this
    rw [hledger, hchain, hentered]
    exact this

/-- Once the row has been written, no renewal relies on what it read before. -/
theorem relies_wrote {r : Renewer} (h : r.seen ≤ o.version) (hv : o'.version = o.version + 1) : r.Relies o' :=
  ⟨by omega, fun he => by omega⟩

/-- As long as the row stands, draining lots does not upset a renewal. -/
theorem relies_drained {r : Renewer} (h : r.Relies o) (hv : o'.version = o.version) (hchain : o'.chain = o.chain)
    (hrow : o'.store.subscription = o.store.subscription)
    (hholds : ∀ c ∈ o.chain, o'.store.holds c.lotId → o.store.holds c.lotId) : r.Relies o' := by
  obtain ⟨h₁, h₂⟩ := h
  refine ⟨hv ▸ h₁, fun he => ?_⟩
  have h₃ := h₂ (he.trans hv)
  rw [hrow, hchain]
  split at h₃
  · exact h₃
  · exact h₃
  · obtain ⟨k₁, k₂, k₃, k₄⟩ := h₃
    exact ⟨k₁, k₂, k₃, fun c hc hh => k₄ c hc (hholds c hc hh)⟩
  · trivial

/-- The call of a renewal that writes nothing to the row. -/
theorem Sound.drained (h : o.Sound) {worker : ℕ} {r' : Renewer} {s : Store}
    (hrow : s.subscription = o.store.subscription)
    (hlen : o.store.ledger.lots.length ≤ s.ledger.lots.length)
    (hlots : ∀ (i : ℕ) (l : Lot), s.ledger.lots[i]? = some l → 0 < l.amountRemaining → o.store.ledger.lots[i]? = some l)
    (hr' : r'.Relies (o.move worker r' s)) : (o.move worker r' s).Sound where
  settled := h.settled.drained rfl rfl hrow hlen fun c _ l => hlots c.lotId l
  relies := by
    refine Everyone.update (h.relies.imp fun r hr => ?_) worker fun r hr => by
      obtain rfl : r' = r := Option.some.inj hr
      exact hr'
    refine relies_drained (o := o) hr rfl rfl hrow fun c _ hh => ?_
    obtain ⟨l, hl, hpos⟩ := hh
    exact ⟨l, hlots c.lotId l hl hpos, hpos⟩

/-- The chain after a renewal's write: the old lots are empty, the new one ends last. -/
theorem Settled.renew (h : o.Settled) {row row' : Subscription} {active : Bool} {t : ℤ} {lot : Lot} {s : Store}
    {renewers : ℕ → Option Renewer}
    (hrow : o.store.subscription = some row) (hadm : row.adminAssigned = false)
    (hempty : ∀ c ∈ o.chain, ¬ o.store.holds c.lotId) (ht : row.periodEnd < t)
    (hrow' : s.subscription = some row') (hend : row'.periodEnd = t) (hexp : lot.expiresAt = some t)
    (hlots : s.ledger.lots = if active then o.store.ledger.lots ++ [lot] else o.store.ledger.lots) :
    Office.Settled ⟨s, o.version + 1, renewers,
      if active then o.chain ++ [⟨o.store.ledger.lots.length, t⟩] else o.chain, o.entered ++ [t]⟩ := by
  obtain ⟨hbefore, -⟩ := h.current row hrow hadm
  have hnew : t ∉ o.entered := fun hmem => by
    have := hbefore t hmem
    omega
  have hlots' : ∀ c ∈ o.chain, s.ledger.lots[c.lotId]? = o.store.ledger.lots[c.lotId]? := by
    intro c hc
    rw [hlots]
    cases active
    · rfl
    · exact List.getElem?_append_left (h.known c hc)
  have hnone : ∀ c ∈ o.chain, ¬ s.holds c.lotId := by
    intro c hc hh
    unfold Store.holds at hh
    rw [hlots' c hc] at hh
    exact hempty c hc hh
  have hmem : ∀ c : Link, c ∈ (if active then o.chain ++ [⟨o.store.ledger.lots.length, t⟩] else o.chain) →
      c ∈ o.chain ∨ active = true ∧ c = ⟨o.store.ledger.lots.length, t⟩ := by
    intro c hc
    cases active
    · exact Or.inl hc
    · rcases List.mem_append.mp hc with hc | hc
      · exact Or.inl hc
      · exact Or.inr ⟨rfl, List.mem_singleton.mp hc⟩
  refine ⟨fun c hc => ?_, ?_, ?_, fun c hc => ?_, fun c hc c' hc' hh hh' => ?_, fun row₁ hr₁ _ => ⟨fun u hu => ?_, ?_⟩⟩
  · show c.lotId < s.ledger.lots.length
    rw [hlots]
    rcases hmem c hc with hc | ⟨ha, rfl⟩
    · have := h.known c hc
      split
      · rw [List.length_append]
        omega
      · exact this
    · rw [ha, if_pos rfl, List.length_append, List.length_singleton]
      exact Nat.lt_succ_self _
  · exact List.nodup_append.mpr ⟨h.entered, by simp, fun a ha b hb e => hnew (by simp at hb; rwa [← hb, ← e])⟩
  · cases active
    · exact h.links
    · show ((o.chain ++ [⟨o.store.ledger.lots.length, t⟩] : List Link).map (·.period)).Nodup
      rw [List.map_append]
      refine List.nodup_append.mpr ⟨h.links, by simp, fun a ha b hb e => hnew ?_⟩
      obtain ⟨c, hc, rfl⟩ := List.mem_map.mp ha
      simp at hb
      rw [← hb, ← e]
      exact h.periods c hc
  · rcases hmem c hc with hc | ⟨-, rfl⟩
    · exact List.mem_append_left _ (h.periods c hc)
    · exact List.mem_append_right _ (List.mem_singleton_self t)
  · rcases hmem c hc with hc | ⟨-, rfl⟩
    · exact absurd hh (hnone c hc)
    · rcases hmem c' hc' with hc' | ⟨-, rfl⟩
      · exact absurd hh' (hnone c' hc')
      · rfl
  · obtain rfl : row' = row₁ := Option.some.inj (hrow'.symm.trans hr₁)
    rcases List.mem_append.mp hu with hu | hu
    · have := hbefore u hu
      omega
    · rw [List.mem_singleton.mp hu, hend]
  · obtain rfl : row' = row₁ := Option.some.inj (hrow'.symm.trans hr₁)
    intro c hc l hl hpos
    rcases hmem c hc with hc | ⟨ha, rfl⟩
    · exact absurd ⟨l, hl, hpos⟩ (hnone c hc)
    · dsimp only at hl
      rw [hlots, ha, if_pos rfl, List.getElem?_append_right le_rfl, Nat.sub_self] at hl
      obtain rfl : lot = l := by simpa using hl
      exact ⟨t, hexp, by rw [hend]⟩

/-- The chain after a subscription starts: one link. -/
theorem Settled.subscribe {s : Store} {row : Subscription} {t : ℤ} {lot : Lot} {lots : List Lot} {version : ℕ}
    {renewers : ℕ → Option Renewer} (hrow : s.subscription = some row) (hend : row.periodEnd = t)
    (hexp : lot.expiresAt = some t) (hlots : s.ledger.lots = lots ++ [lot]) :
    Office.Settled ⟨s, version, renewers, [⟨lots.length, t⟩], [t]⟩ := by
  have hone : ∀ c : Link, c ∈ [(⟨lots.length, t⟩ : Link)] → c = ⟨lots.length, t⟩ := fun c hc => List.mem_singleton.mp hc
  refine ⟨fun c hc => ?_, by simp, by simp, fun c hc => ?_, fun c hc c' hc' _ _ => ?_, fun row₁ hr₁ _ => ⟨fun u hu => ?_, ?_⟩⟩
  · rw [hone c hc]
    show lots.length < s.ledger.lots.length
    simp [hlots]
  · rw [hone c hc]
    exact List.mem_singleton_self t
  · rw [hone c hc, hone c' hc']
  · obtain rfl : row = row₁ := Option.some.inj (hrow.symm.trans hr₁)
    rw [List.mem_singleton.mp hu, hend]
  · obtain rfl : row = row₁ := Option.some.inj (hrow.symm.trans hr₁)
    intro c hc l hl _
    rw [hone c hc] at hl
    dsimp only at hl
    rw [hlots, List.getElem?_append_right le_rfl, Nat.sub_self] at hl
    obtain rfl : lot = l := by simpa using hl
    exact ⟨t, hexp, by rw [hend]⟩

/-- A write to the row by something that is not a renewal. -/
theorem Sound.wrote (h : o.Sound) {s : Store} (hset : (o.wrote s).Settled) : (o.wrote s).Sound :=
  ⟨hset, h.relies.imp fun _ hr => relies_wrote hr.1 rfl⟩

variable {plans : String → Option Plan} {worker : ℕ} {clock : ℤ}

/-- The next call of a renewal keeps the invariant. -/
theorem Sound.advance (h : o.Sound) {r : Renewer} (hr : o.renewers worker = some r)
    (hguard : o.undisturbed (.advance worker clock) = true) : (o.advance plans worker r clock).Sound := by
  obtain ⟨hseen, hkeep⟩ := h.relies worker r hr
  have hsame : ∀ r' : Renewer, r'.Relies (o.move worker r' o.store) → (o.move worker r' o.store).Sound :=
    fun r' hr' => h.drained rfl le_rfl (fun _ _ hl _ => hl) hr'
  simp only [Office.undisturbed, hr] at hguard
  obtain ⟨input, due, seen, pc⟩ := r
  dsimp only at hseen hkeep hguard
  cases pc with
  | read =>
    have hle : (if due = false then o.version else seen) ≤ o.version := by
      split <;> omega
    rcases hrow : o.store.subscription with _ | sub
    · simp only [Office.advance, RenewPc.step, hrow, true_and]
      exact hsame _ ⟨hle, fun _ => trivial⟩
    · rcases hp : plans sub.planId with _ | plan
      · simp only [Office.advance, RenewPc.step, hrow, hp, true_and]
        exact hsame _ ⟨hle, fun _ => trivial⟩
      · simp only [Office.advance, RenewPc.step, hrow, hp, true_and]
        refine hsame _ ⟨hle, fun hv => ⟨hrow, ?_⟩⟩
        cases due
        · simpa [hrow] using hguard
        · exact hkeep hv rfl sub hrow
  | sweep sub plan =>
    rcases hstep : RenewPc.step plans input clock (.sweep sub plan) o.store with ⟨pc', s'⟩
    simp only [Office.advance, hstep]
    obtain ⟨hrow, ⟨hpc, hlots⟩ | ⟨⟨e, hpc⟩, rfl⟩⟩ := sweep_lots plans input sub plan clock o.store hstep
    · have hafter : ∀ (i : ℕ) (l : Lot), s'.ledger.lots[i]? = some l → 0 < l.amountRemaining →
          o.store.ledger.lots[i]? = some l := fun i l hl hpos => (swept_lot (hlots ▸ hl) hpos).1
      have hlen : o.store.ledger.lots.length ≤ s'.ledger.lots.length := by rw [hlots, List.length_map]
      by_cases hl : sub.lapses
      · rw [if_pos hl] at hpc
        subst hpc
        exact h.drained hrow hlen hafter ⟨hseen, fun _ => trivial⟩
      · rw [if_neg hl] at hpc
        subst hpc
        refine h.drained hrow hlen hafter ⟨hseen, fun hv => ?_⟩
        obtain ⟨hsub, hadm⟩ := hkeep hv
        refine ⟨hrow.trans hsub, hadm, by simpa using hl, fun c hc hh => ?_⟩
        -- a lot of the chain that survived the sweep would have to outlive the period
        obtain ⟨l, hlot, hpos⟩ := hh
        obtain ⟨hlot', hdue⟩ := swept_lot (hlots ▸ hlot) hpos
        obtain ⟨t, ht, hle⟩ := (h.settled.current sub hsub hadm).2 c hc l hlot' hpos
        simp only [Lot.isDue, ht, Bool.and_eq_false_iff, decide_eq_false_iff_not] at hdue
        omega
    · subst hpc
      exact hsame _ ⟨hseen, fun _ => trivial⟩
  | lapse =>
    rcases hu : (updateSubscription Subscription.lapsed).run o.store with ⟨e | sub, s'⟩
    · obtain rfl := updateSubscription_safe _ _ _ _ hu
      simp only [Office.advance, RenewPc.step, hu]
      exact hsame _ ⟨hseen, fun _ => trivial⟩
    · simp only [Office.advance, RenewPc.step, hu]
      obtain ⟨row, hrow, rfl⟩ := updateSubscription_ok hu
      refine ⟨h.settled.wrote rfl (fun row' hr' hadm => ?_) rfl rfl,
        Everyone.update (h.relies.imp fun r hr => relies_wrote hr.1 rfl) worker fun r hr => ?_⟩
      · cases hr'
        exact ⟨row, hrow, hadm, rfl⟩
      · cases hr
        exact relies_wrote hseen rfl
  | write sub plan =>
    obtain ⟨hsub, hadm, -, hempty⟩ := hkeep (by simpa using hguard)
    rcases hstep : RenewPc.step plans input clock (.write sub plan) o.store with ⟨pc', s'⟩
    simp only [Office.advance, hstep]
    obtain ⟨⟨m, rfl⟩, hrow', hlots⟩ | ⟨hpc, rfl⟩ := write_cases plans input sub plan clock hsub hstep
    · refine ⟨h.settled.renew hsub hadm hempty (nextEnd_gt sub input.now) hrow' rfl rfl hlots,
        Everyone.update (h.relies.imp fun r hr => relies_wrote hr.1 rfl) worker fun r hr => ?_⟩
      cases hr
      exact relies_wrote hseen rfl
    · rcases hpc with rfl | ⟨e, rfl⟩
      · exact hsame _ ⟨hseen, fun _ => trivial⟩
      · exact hsame _ ⟨hseen, fun _ => trivial⟩
  | reread =>
    rcases hrow : o.store.subscription with _ | sub
    · simp only [Office.advance, RenewPc.step, hrow]
      exact hsame _ ⟨hseen, fun _ => trivial⟩
    · simp only [Office.advance, RenewPc.step, hrow]
      exact hsame _ ⟨hseen, fun _ => trivial⟩
  | returned m => exact hsame ⟨input, due, seen, .returned m⟩ ⟨hseen, fun _ => trivial⟩
  | threw e => exact hsame ⟨input, due, seen, .threw e⟩ ⟨hseen, fun _ => trivial⟩

/-- A renewal starts at an idle worker. -/
theorem Sound.begin (h : o.Sound) {r : Renewer} (hr : r.Relies o) (ho : o.begin worker r = some o') : o'.Sound := by
  unfold Office.begin at ho
  split at ho
  · cases ho
  · cases ho
    exact h.drained rfl le_rfl (fun _ _ hl _ => hl) hr

/-- A row write that touches no credits keeps the invariant; a failed one leaves everything as it was. -/
theorem Sound.update (h : o.Sound) (f : Subscription → Subscription)
    (hf : ∀ row, (f row).adminAssigned = row.adminAssigned ∧ (f row).periodEnd = row.periodEnd) :
    (o.after ((updateSubscription f).run o.store)).Sound := by
  rcases hu : (updateSubscription f).run o.store with ⟨e | sub, s'⟩
  · obtain rfl := updateSubscription_safe _ _ _ _ hu
    exact h
  · obtain ⟨row, hrow, rfl⟩ := updateSubscription_ok hu
    refine h.wrote (h.settled.wrote rfl (fun row' hr' hadm => ?_) rfl rfl)
    cases hr'
    exact ⟨row, hrow, (hf row).1 ▸ hadm, (hf row).2.symm⟩

/-- Every step that meets the condition keeps the invariant. -/
theorem Sound.next (h : o.Sound) {a : OfficeAction} (hs : Guarded (Office.Step plans) Undisturbed o a o') :
    o'.Sound := by
  obtain ⟨hs, hguard⟩ := hs
  unfold Office.Step at hs
  cases a with
  | find worker now =>
    simp only [Office.next] at hs
    rcases hrow : o.store.subscription with _ | sub <;> simp only [hrow] at hs
    · cases hs
    · split at hs
      · rename_i hdue
        refine h.begin ?_ hs
        refine ⟨le_rfl, fun _ _ row hr => ?_⟩
        obtain rfl : sub = row := Option.some.inj (hrow.symm.trans hr)
        simp only [Subscription.isDue, Bool.and_eq_true, Bool.not_eq_true'] at hdue
        exact hdue.2
      · cases hs
  | event worker input =>
    refine h.begin ?_ hs
    exact ⟨le_rfl, fun _ hdue => by cases hdue⟩
  | advance worker clock =>
    obtain ⟨r, hr, rfl⟩ := Option.map_eq_some_iff.mp hs
    exact h.advance hr hguard
  | leave worker =>
    cases hs
    exact ⟨h.settled.drained rfl rfl rfl le_rfl fun _ _ _ hl _ => hl,
      Everyone.update (h.relies.imp fun r hr => relies_drained hr rfl rfl rfl fun _ _ hh => hh) worker
        fun r hr => by cases hr⟩
  | subscribe input clock =>
    simp only [Office.next] at hs
    split at hs
    · cases hs
    · rename_i plan _
      rcases hu : (subscribeTransaction input plan clock).run o.store with ⟨e | m, s'⟩ <;> rw [hu] at hs <;> cases hs
      · obtain rfl := Db.transaction_error hu
        exact h
      · obtain ⟨hrow, lot, hexp, hlots⟩ := subscribe_ok hu
        exact ⟨Settled.subscribe hrow rfl hexp hlots, h.relies.imp fun _ hr => relies_wrote hr.1 rfl⟩
  | changePlan planId =>
    simp only [Office.next] at hs
    split at hs
    · cases hs
    · cases hs
      exact h.update _ fun _ => ⟨rfl, rfl⟩
  | cancel =>
    cases hs
    exact h.update _ fun _ => ⟨rfl, rfl⟩
  | assign input now =>
    cases hs
    rcases hu : (assignTransaction plans input now).run o.store with ⟨e | _, s'⟩
    · obtain rfl := Db.transaction_error hu
      exact h
    · obtain ⟨hledger, hrow⟩ := assign_ok hu
      exact h.wrote (h.settled.wrote hledger hrow rfl rfl)

end Office

/-! ### One renewal for each period -/

/-- The row was renewed over: neither cancelled, nor about to be, nor assigned by an operator. -/
def Office.Renewable (o : Office) : Prop :=
  ∃ row, o.store.subscription = some row ∧ row.cancelAtPeriodEnd = false ∧ row.status ≠ .CANCELLED ∧
    row.adminAssigned = false

/-- A renewal's write enters a period only of a subscription that can be renewed when it commits. -/
theorem renews_renewable {plans : String → Option Plan} {o o' : Office} {worker : ℕ} {clock : ℤ} (h : o.Sound)
    (hs : Guarded (Office.Step plans) Undisturbed o (.advance worker clock) o') (hentered : o'.entered ≠ o.entered) :
    o.Renewable := by
  obtain ⟨hs, hguard⟩ := hs
  obtain ⟨r, hr, rfl⟩ := Option.map_eq_some_iff.mp hs
  obtain ⟨-, hkeep⟩ := h.relies worker r hr
  simp only [Undisturbed, Office.undisturbed, hr] at hguard
  obtain ⟨input, due, seen, pc⟩ := r
  cases pc with
  | write sub plan =>
    obtain ⟨hsub, hadm, hlapse, -⟩ := hkeep (by simpa using hguard)
    simp only [Subscription.lapses, Bool.or_eq_false_iff, decide_eq_false_iff_not] at hlapse
    exact ⟨sub, hsub, hlapse.1, hlapse.2, hadm⟩
  | lapse =>
    refine absurd ?_ hentered
    rcases hstep : RenewPc.step plans input clock .lapse o.store with ⟨pc', s'⟩
    simp only [Office.advance, hstep]
    cases pc' <;> rfl
  | read => exact absurd rfl hentered
  | sweep sub plan => exact absurd rfl hentered
  | reread => exact absurd rfl hentered
  | returned m => exact absurd rfl hentered
  | threw e => exact absurd rfl hentered

/-- **One renewal for each period**, in every run whose steps meet the condition, from any state in
which nobody is at work and the chain is in order. No period is entered twice, none is granted for
twice, at most one lot of the chain holds credits, and whenever a renewal enters a period, the
subscription is at that moment neither cancelled nor assigned by an operator. -/
theorem one_renewal_per_period (plans : String → Option Plan) (o₀ o : Office) (h₀ : o₀.Settled)
    (hidle : ∀ worker, o₀.renewers worker = none)
    (h : Reaches (Guarded (Office.Step plans) Undisturbed) o₀ o) :
    o.entered.Nodup ∧ (o.chain.map (·.period)).Nodup ∧ (∀ c ∈ o.chain, c.period ∈ o.entered) ∧
    (∀ c ∈ o.chain, ∀ c' ∈ o.chain, o.store.holds c.lotId → o.store.holds c'.lotId → c = c') ∧
    (∀ worker clock o', Guarded (Office.Step plans) Undisturbed o (.advance worker clock) o' →
      o'.entered ≠ o.entered → o.Renewable) := by
  have hs : o.Sound := h.inv ⟨h₀, fun i r hr => by rw [hidle i] at hr; cases hr⟩ fun _ _ _ hu hs => hu.next hs
  exact ⟨hs.settled.entered, hs.settled.links, hs.settled.periods, hs.settled.single,
    fun worker clock o' hstep hne => renews_renewable hs hstep hne⟩

/-- The office of the subscriber, whose first period is the only one so far. -/
def subscriberOffice : Office := ⟨subscriber, 0, fun _ => none, [⟨0, periodMs⟩], [periodMs]⟩

theorem subscriberOffice_settled : subscriberOffice.Settled := by
  refine ⟨by decide, by decide, by decide, by decide, fun c hc c' hc' _ _ => ?_, fun row hrow _ => ⟨?_, ?_⟩⟩
  · rw [List.mem_singleton.mp hc, List.mem_singleton.mp hc']
  · cases hrow
    decide
  · cases hrow
    intro c hc l hl _
    rw [List.mem_singleton.mp hc] at hl
    cases hl
    exact ⟨periodMs, rfl, le_rfl⟩

/-- A worker renews while another, which found the subscription due before, does not get to its write. -/
def oneWorkerRenews : List OfficeAction :=
  [.find 1 periodMs, .find 2 periodMs, .advance 1 0, .advance 2 0, .advance 1 0, .advance 2 0, .advance 1 0, .leave 2]

theorem one_renewal_per_period_oneWorkerRenews :
    ∃ o, Reaches (Guarded (Office.Step onlyPro) Undisturbed) subscriberOffice o ∧
      o.entered = [periodMs, 2 * periodMs] ∧ (balanceOf o.store.ledger periodMs).plan = 1200 ∧ o.entered.Nodup := by
  obtain ⟨o, hrun, hentered, hbal⟩ :=
    Reaches.exists_of_play (Office.next onlyPro) Office.undisturbed subscriberOffice oneWorkerRenews
      (fun o => o.entered = [periodMs, 2 * periodMs] ∧ (balanceOf o.store.ledger periodMs).plan = 1200) (by decide)
  exact ⟨o, hrun, hentered, hbal,
    (one_renewal_per_period onlyPro subscriberOffice o subscriberOffice_settled (fun _ => rfl) hrun).1⟩

/-- Two workers find the subscription due, and each of them renews it. -/
def twoWorkersRenew : List OfficeAction :=
  [.find 1 periodMs, .find 2 periodMs, .advance 1 0, .advance 2 0, .advance 1 0, .advance 2 0, .advance 1 0, .advance 2 0]

/-- **Two sweeps enter one period twice**, and the subscriber holds two months' credits, of two
unexpired lots. -/
theorem renewed_twice :
    ∃ o, Reaches (Office.Step onlyPro) subscriberOffice o ∧ o.entered = [periodMs, 2 * periodMs, 2 * periodMs] ∧
      o.chain = [⟨0, periodMs⟩, ⟨1, 2 * periodMs⟩, ⟨2, 2 * periodMs⟩] ∧
      (balanceOf o.store.ledger periodMs).plan = 2400 := by
  obtain ⟨o, hrun, h⟩ :=
    Reaches.exists_of_play (Office.next onlyPro) (fun _ _ => true) subscriberOffice twoWorkersRenew
      (fun o => o.entered = [periodMs, 2 * periodMs, 2 * periodMs] ∧
        o.chain = [⟨0, periodMs⟩, ⟨1, 2 * periodMs⟩, ⟨2, 2 * periodMs⟩] ∧
        (balanceOf o.store.ledger periodMs).plan = 2400) (by decide)
  exact ⟨o, hrun.of_guarded, h⟩

end WebAudit.Billing
