import WebAudit.Billing.Renewal
import WebAudit.Billing.Webhook
import WebAudit.Lib.Runs

/-!
# Renewal events, delivered more than once

A feed of deliveries and redeliveries should leave the user where delivering each event
once would. `Feed.reference` is the store that once-only delivery leads to: the committed
deliveries, one after the other, each from beginning to end.

It does not, in general. A renewal that commits and dies before its event is marked applied
is run again by the next delivery. The row then already shows the next period, so the
sweep at its boundary destroys the credits just granted, and the duplicate grant that
follows only rolls back the boundary (`rerun_destroys_grant`).

It does in every feed in which no event is swept for again once its effect was committed,
a subscription that is to lapse apart (`Fresh`). `Agrees` is the invariant: the row is that
of the reference, and the live lots are those of the reference, or those with the lots due
at its boundary gone, when an event was swept for and not committed yet.
-/

namespace WebAudit.Billing

open WebAudit.Lib WebAudit.Credits

variable {plans : String → Option Plan}

/-! ### The table of events -/

section Events

variable {s : Store} {event e : String}

theorem applied_receive (event e : String) : (s.receive event).applied e = s.applied e := by
  unfold Store.applied Store.eventRow Store.receive
  dsimp only
  rw [List.find?_append]
  rcases hf : s.billingEvents.find? (·.id = e) with _ | row
  · by_cases he : event = e <;> simp [hf, he]
  · simp [hf]

/-- Marking an event changes no other event's row. -/
theorem eventRow_markApplied (clock : ℤ) :
    (s.markApplied event clock).eventRow e
      = (s.eventRow e).map fun row => if row.id = event then { row with appliedAt := some clock } else row := by
  unfold Store.eventRow Store.markApplied
  rw [List.find?_map]
  congr 2
  funext row
  simp only [Function.comp]
  split <;> rfl

theorem applied_markApplied (clock : ℤ) (h : (s.markApplied event clock).applied e = true) :
    s.applied e = true ∨ e = event := by
  by_cases he : e = event
  · exact Or.inr he
  left
  unfold Store.applied at *
  rw [eventRow_markApplied] at h
  rcases hf : s.eventRow e with _ | row
  · simp [hf] at h
  · have hrow : row.id = e := by simpa using List.find?_some hf
    simpa [hf, hrow, he] using h

theorem applied_of_markApplied (clock : ℤ) (h : s.applied e = true) : (s.markApplied event clock).applied e = true := by
  unfold Store.applied at *
  rw [eventRow_markApplied]
  rcases hf : s.eventRow e with _ | row
  · simp [hf] at h
  · by_cases hrow : row.id = event
    · simp [hrow]
    · simpa [hf, hrow] using h

end Events

/-! ### One delivery, from beginning to end -/

section Once

variable {s : Store} {sub : Subscription} {plan : Plan} {d : Delivery}

/-- The next call of a delivery whose clock stands at its own reading. -/
def tick (plans : String → Option Plan) (d : Delivery) (p : WebhookPc × Store) : WebhookPc × Store :=
  WebhookPc.step plans d d.now p.1 p.2

theorem tick_responded (n : ℕ) (status : ℕ) (s : Store) :
    (tick plans d)^[n] (.responded status, s) = (.responded status, s) :=
  Function.iterate_fixed rfl n

/-- A delivery of an event that is not applied gets to its effect, in one call or in two. -/
theorem once_begins (plans : String → Option Plan) (n : ℕ) (h : s.applied d.event = false) :
    ∃ s₁ k, (tick plans d)^[n + 2] (.insert, s) = (tick plans d)^[n + k] (.effect .read, s₁) ∧ k ≤ 1 ∧
      s₁.ledger = s.ledger ∧ s₁.subscription = s.subscription ∧ ∀ e, s₁.applied e = s.applied e := by
  rcases hr : s.eventRow d.event with _ | row
  · refine ⟨s.receive d.event, 1, ?_, le_rfl, rfl, rfl, applied_receive d.event⟩
    rw [Function.iterate_succ_apply]
    congr 1
    simp [tick, WebhookPc.step, hr]
  · refine ⟨s, 0, ?_, by omega, rfl, rfl, fun e => rfl⟩
    rw [Function.iterate_succ_apply, Function.iterate_succ_apply]
    congr 1
    simp [tick, WebhookPc.step, hr, h]

/-- What a delivery from beginning to end does, when its effect ends with `pc` and store `u`
reached from the sweep's store. -/
structure OnceResult (s : Store) (d : Delivery) (row : Subscription) (live : List Lot) (granted : String → Bool)
    (s' : Store) : Prop where
  row : s'.subscription = some row
  live : s'.ledger.live = live
  granted : ∀ e, s'.ledger.grantedFor e = granted e
  applied : ∀ e, s'.applied e = true → s.applied e = true ∨ e = d.event

/-- Reading and sweeping. -/
theorem once_swept (plans : String → Option Plan) (d : Delivery) (n : ℕ) (hs : s.subscription = some sub) (hp : plans sub.planId = some plan)
    (hdue : due sub.periodEnd s.ledger.live ≤ int4Max) :
    ∃ l : Ledger, (tick plans d)^[n + 2] (.effect .read, s)
        = (tick plans d)^[n] (.effect (if sub.lapses then .lapse else .write sub plan), { s with ledger := l }) ∧
      l.live = (s.ledger.live.filter fun lot => !lot.isDue sub.periodEnd) ∧
      ∀ e, l.grantedFor e = s.ledger.grantedFor e := by
  obtain ⟨l, hl, h₁, h₂⟩ := sweep_step_runs plans d.input sub plan d.now hdue
  refine ⟨l, ?_, h₁, h₂⟩
  rw [Function.iterate_succ_apply, Function.iterate_succ_apply]
  congr 1
  simp only [tick, WebhookPc.step, read_step plans d.input hs hp, hl]
  by_cases h : sub.lapses <;> simp [h]

theorem once_lapse (ha : s.applied d.event = false) (hs : s.subscription = some sub)
    (hp : plans sub.planId = some plan) (hdue : due sub.periodEnd s.ledger.live ≤ int4Max) (hl : sub.lapses = true) :
    OnceResult s d sub.lapsed (s.ledger.live.filter fun lot => !lot.isDue sub.periodEnd)
      s.ledger.grantedFor (deliverOnce plans s d) := by
  obtain ⟨s₁, k, hbegin, hk, hledger, hrow, happ⟩ := once_begins plans 5 ha
  obtain ⟨l, hsweep, hlive, hgranted⟩ :=
    once_swept plans d (k + 3) (hrow.trans hs) hp (hledger ▸ hdue)
  have hend : deliverOnce plans s d
      = Store.markApplied { s₁ with ledger := l, subscription := some sub.lapsed } d.event d.now := by
    show ((tick plans d)^[5 + 2] (.insert, s)).2 = _
    rw [hbegin, show 5 + k = k + 3 + 2 by omega, hsweep, hl, if_pos rfl, Function.iterate_succ_apply,
      Function.iterate_succ_apply]
    have hstep := lapse_step plans d.input (s := { s₁ with ledger := l }) (hrow.trans hs) d.now
    have hlapse : tick plans d (.effect .lapse, { s₁ with ledger := l })
        = (.mark, { s₁ with ledger := l, subscription := some sub.lapsed }) := by
      simp only [tick, WebhookPc.step, hstep]
    have hmark : ∀ u : Store, tick plans d (.mark, u) = (.responded 200, u.markApplied d.event d.now) := fun _ => rfl
    rw [hlapse, hmark, tick_responded]
  rw [hend]
  refine ⟨rfl, ?_, fun e => ?_, fun e he => ?_⟩
  · rw [← hledger]
    exact hlive
  · rw [← hledger]
    exact hgranted e
  · rcases applied_markApplied d.now he with h | h
    · exact Or.inl ((happ e) ▸ h)
    · exact Or.inr h

/-- The row, the live lots and the events granted for after the write of a period. -/
def afterWrite (d : Delivery) (sub : Subscription) (plan : Plan) (live : List Lot) (granted : String → Bool) :
    Subscription × List Lot × (String → Bool) :=
  if plan.isActive then
    if granted d.event then (sub, live, granted)
    else (sub.renewed sub d.now, live ++ [((renewalGrant d.input sub plan).lot 0).undated],
      fun e => granted e || d.event == e)
  else (sub.renewed sub d.now, live, granted)

/-- The amount of the plan's grant is one the ledger takes. -/
def Plan.Grantable (plan : Plan) : Prop :=
  plan.isActive → 0 < plan.monthlyCredits ∧ plan.monthlyCredits ≤ int4Max

/-- The write of a period commits if the plan's grant can be made, and fails without a trace if not. -/
theorem write_commits (plans : String → Option Plan) (d : Delivery) (hs : s.subscription = some sub) (plan : Plan) (clock : ℤ) :
    (plan.Grantable ∧ ∃ pc' s', RenewPc.step plans d.input clock (.write sub plan) s = (pc', s') ∧
      ((∃ m, pc' = .returned m) ∨ pc' = .reread) ∧
      s'.subscription = some (afterWrite d sub plan s.ledger.live s.ledger.grantedFor).1 ∧
      s'.ledger.live = (afterWrite d sub plan s.ledger.live s.ledger.grantedFor).2.1 ∧
      (∀ e, s'.ledger.grantedFor e = (afterWrite d sub plan s.ledger.live s.ledger.grantedFor).2.2 e) ∧
      s'.billingEvents = s.billingEvents) ∨
    (¬ plan.Grantable ∧ ∃ e, RenewPc.step plans d.input clock (.write sub plan) s = (.threw e, s)) := by
  have hw := write_step plans d.input rfl hs sub plan clock
  unfold afterWrite
  by_cases ha : plan.isActive
  · rw [if_pos ha] at hw ⊢
    by_cases hr : plan.monthlyCredits ≤ 0 ∨ int4Max < plan.monthlyCredits
    · rw [if_pos hr] at hw
      exact Or.inr ⟨fun h => by have := h ha; omega, _, hw⟩
    · have hg : plan.Grantable := fun _ => by omega
      rw [if_neg hr] at hw
      by_cases hd : s.ledger.grantedFor d.event
      · rw [if_pos hd] at hw ⊢
        exact Or.inl ⟨hg, _, _, hw, Or.inr rfl, hs, rfl, fun _ => rfl, rfl⟩
      · rw [if_neg hd] at hw ⊢
        refine Or.inl ⟨hg, _, _, hw, Or.inl ⟨_, rfl⟩, rfl, ?_, fun e => ?_, rfl⟩
        · have hpos : 0 < ((renewalGrant d.input sub plan).lot clock).amountRemaining := (hg ha).1
          dsimp only
          rw [live_insertLot hpos, live_insertTransaction]
          rfl
        · dsimp only
          rw [grantedFor_insertLot, grantedFor_insertTransaction]
          rfl
  · rw [if_neg ha] at hw ⊢
    exact Or.inl ⟨fun h => absurd h ha, _, _, hw, Or.inl ⟨_, rfl⟩, rfl, rfl, fun _ => rfl, rfl⟩

theorem afterWrite_congr {plan : Plan} {live : List Lot} {g g' : String → Bool} (h : ∀ e, g e = g' e) :
    afterWrite d sub plan live g = afterWrite d sub plan live g' := by
  rw [funext h]

theorem once_write (ha : s.applied d.event = false) (hs : s.subscription = some sub)
    (hp : plans sub.planId = some plan) (hdue : due sub.periodEnd s.ledger.live ≤ int4Max)
    (hl : sub.lapses = false) (hg : plan.Grantable) :
    let after := afterWrite d sub plan (s.ledger.live.filter fun lot => !lot.isDue sub.periodEnd) s.ledger.grantedFor
    OnceResult s d after.1 after.2.1 after.2.2 (deliverOnce plans s d) := by
  obtain ⟨s₁, k, hbegin, hk, hledger, hrow, happ⟩ := once_begins plans 5 ha
  obtain ⟨l, hsweep, hlive, hgranted⟩ :=
    once_swept plans d (k + 3) (hrow.trans hs) hp (hledger ▸ hdue)
  rw [hledger] at hlive
  simp only [hledger] at hgranted
  obtain ⟨-, pc', s', hstep, hpc, h₁, h₂, h₃, h₄⟩ | ⟨hng, -⟩ :=
    write_commits plans d (s := { s₁ with ledger := l }) (hrow.trans hs) plan d.now
  swap
  · exact absurd hg hng
  have hmark : ∀ u : Store, tick plans d (.mark, u) = (.responded 200, u.markApplied d.event d.now) := fun _ => rfl
  have hend : deliverOnce plans s d = s'.markApplied d.event d.now := by
    show ((tick plans d)^[5 + 2] (.insert, s)).2 = _
    rw [hbegin, show 5 + k = k + 3 + 2 by omega, hsweep, hl, if_neg (by decide)]
    rcases hpc with ⟨m, rfl⟩ | rfl
    · have hwrite : tick plans d (.effect (.write sub plan), { s₁ with ledger := l }) = (.mark, s') := by
        simp only [tick, WebhookPc.step, hstep]
      rw [Function.iterate_succ_apply, Function.iterate_succ_apply, hwrite, hmark, tick_responded]
    · have hwrite : tick plans d (.effect (.write sub plan), { s₁ with ledger := l }) = (.effect .reread, s') := by
        simp only [tick, WebhookPc.step, hstep]
      have hreread : tick plans d (.effect .reread, s') = (.mark, s') := by
        simp only [tick, WebhookPc.step, RenewPc.step, h₁]
      rw [Function.iterate_succ_apply, Function.iterate_succ_apply, Function.iterate_succ_apply, hwrite, hreread,
        hmark, tick_responded]
  dsimp only
  rw [hend]
  have hafter : afterWrite d sub plan l.live l.grantedFor
      = afterWrite d sub plan (s.ledger.live.filter fun lot => !lot.isDue sub.periodEnd) s.ledger.grantedFor := by
    rw [hlive, afterWrite_congr hgranted]
  dsimp only at h₁ h₂ h₃
  rw [hafter] at h₁ h₂ h₃
  refine ⟨h₁, h₂, h₃, fun e he => ?_⟩
  rcases applied_markApplied d.now he with h | h
  · left
    rw [← happ e]
    unfold Store.applied Store.eventRow at h ⊢
    rwa [h₄] at h
  · exact Or.inr h

end Once

/-! ### The invariant -/

/-- The store that delivering each committed event once leads to. -/
def Feed.reference (plans : String → Option Plan) (s₀ : Store) (committed : List Delivery) : Store :=
  committed.foldl (deliverOnce plans) s₀

/-- The store agrees with that of the reference. -/
structure Agrees (plans : String → Option Plan) (s₀ s : Store) (committed : List Delivery) (received : List String) :
    Prop where
  once : (committed.map (·.event)).Nodup
  /-- What was applied before is not committed again. -/
  new : ∀ e ∈ committed.map (·.event), s₀.applied e = false
  applied : ∀ e, s.applied e = true → s₀.applied e = true ∨ e ∈ committed.map (·.event)
  kept : ∀ e, s₀.applied e = true → s.applied e = true
  referenceApplied : ∀ e, (Feed.reference plans s₀ committed).applied e = true →
    s₀.applied e = true ∨ e ∈ committed.map (·.event)
  row : s.subscription = (Feed.reference plans s₀ committed).subscription
  granted : ∀ e, s.ledger.grantedFor e = (Feed.reference plans s₀ committed).ledger.grantedFor e
  /-- The live lots are those of the reference, or an event was swept for and not committed. -/
  live : s.ledger.live = (Feed.reference plans s₀ committed).ledger.live ∨
    ∃ sub e, s.subscription = some sub ∧
      s.ledger.live
        = ((Feed.reference plans s₀ committed).ledger.live.filter fun lot => !lot.isDue sub.periodEnd) ∧
      due sub.periodEnd (Feed.reference plans s₀ committed).ledger.live ≤ int4Max ∧
      e ∈ received ∧ e ∉ committed.map (·.event) ∧ s₀.applied e = false
  /-- A cancelled subscription has lapsed for good once an event was committed. -/
  closed : ∀ sub, s.subscription = some sub → sub.cancelAtPeriodEnd = true → committed ≠ [] →
    sub.lapsed = sub ∧ ∀ l ∈ s.ledger.live, l.isDue sub.periodEnd = false

namespace Agrees

variable {s₀ s s' : Store} {committed : List Delivery} {received : List String} {sub : Subscription} {plan : Plan}
  {d : Delivery}

theorem start (s₀ : Store) : Agrees plans s₀ s₀ [] [] where
  once := List.nodup_nil
  new := by simp
  applied _ h := Or.inl h
  kept _ h := h
  referenceApplied _ h := Or.inl h
  row := rfl
  granted _ := rfl
  live := Or.inl rfl
  closed _ _ _ h := absurd rfl h

/-- Receiving an event. -/
theorem receive (h : Agrees plans s₀ s committed received) (e : String) :
    Agrees plans s₀ s committed (e :: received) where
  once := h.once
  new := h.new
  applied := h.applied
  kept := h.kept
  referenceApplied := h.referenceApplied
  row := h.row
  granted := h.granted
  live := by
    rcases h.live with hl | ⟨sub, e', h₁, h₂, h₃, h₄, h₅⟩
    · exact Or.inl hl
    · exact Or.inr ⟨sub, e', h₁, h₂, h₃, List.mem_cons_of_mem _ h₄, h₅⟩
  closed := h.closed

/-- Writes to the table of events only. -/
theorem events (h : Agrees plans s₀ s committed received) (hl : s'.ledger = s.ledger)
    (hs : s'.subscription = s.subscription)
    (ha : ∀ e, s'.applied e = true → s.applied e = true ∨ e ∈ committed.map (·.event))
    (hk : ∀ e, s.applied e = true → s'.applied e = true) : Agrees plans s₀ s' committed received where
  once := h.once
  new := h.new
  applied e he := by
    rcases ha e he with he | he
    · exact h.applied e he
    · exact Or.inr he
  kept e he := hk e (h.kept e he)
  referenceApplied := h.referenceApplied
  row := hs.trans h.row
  granted := by rw [hl]; exact h.granted
  live := by rw [hl, hs]; exact h.live
  closed := by rw [hl, hs]; exact h.closed

/-- A sweep for an event that is not committed yet, or for a subscription that is to lapse. -/
theorem sweep (h : Agrees plans s₀ s committed received) (hs : s.subscription = some sub) {l : Ledger}
    (hlive : l.live = s.ledger.live.filter fun lot => !lot.isDue sub.periodEnd)
    (hdue : due sub.periodEnd s.ledger.live ≤ int4Max) (hgranted : ∀ e, l.grantedFor e = s.ledger.grantedFor e)
    (hrec : d.event ∈ received) (hnew : s₀.applied d.event = false)
    (hfresh : d.event ∉ committed.map (·.event) ∨ sub.cancelAtPeriodEnd = true) :
    Agrees plans s₀ { s with ledger := l } committed received where
  once := h.once
  new := h.new
  applied := h.applied
  kept := h.kept
  referenceApplied := h.referenceApplied
  row := h.row
  granted e := (hgranted e).trans (h.granted e)
  live := by
    dsimp only
    rcases h.live with hl | ⟨sub', e', h₁, h₂, h₃, h₄⟩
    · by_cases hdone : d.event ∈ committed.map (·.event)
      · -- swept for again: the subscription has lapsed and nothing is due
        have hcancel : sub.cancelAtPeriodEnd = true := hfresh.resolve_left (not_not.mpr hdone)
        have hne : committed ≠ [] := by
          rintro rfl
          simp at hdone
        rw [hlive, filter_of_none_due (h.closed sub hs hcancel hne).2]
        exact Or.inl hl
      · exact Or.inr ⟨sub, d.event, hs, by rw [hlive, hl], by rw [← hl]; exact hdue, hrec, hdone, hnew⟩
    · -- swept for before, at the same boundary
      obtain rfl : sub = sub' := Option.some.inj (hs.symm.trans h₁)
      refine Or.inr ⟨sub, e', hs, ?_, h₃, h₄⟩
      rw [hlive, h₂, List.filter_filter]
      simp
  closed sub' hs' hc hne := by
    obtain ⟨h₁, h₂⟩ := h.closed sub' hs' hc hne
    refine ⟨h₁, fun lot hlot => h₂ lot ?_⟩
    dsimp only at hlot
    rw [hlive] at hlot
    exact (List.mem_filter.mp hlot).1

/-- With nothing due at the boundary any more, the live lots are the swept ones of the reference. -/
theorem live_swept (h : Agrees plans s₀ s committed received) (hs : s.subscription = some sub)
    (hnone : ∀ l ∈ s.ledger.live, l.isDue sub.periodEnd = false) :
    s.ledger.live
        = ((Feed.reference plans s₀ committed).ledger.live.filter fun lot => !lot.isDue sub.periodEnd) ∧
      due sub.periodEnd (Feed.reference plans s₀ committed).ledger.live ≤ int4Max := by
  rcases h.live with hl | ⟨sub', -, h₁, h₂, h₃, -⟩
  · rw [← hl, due_eq_zero hnone]
    exact ⟨(filter_of_none_due hnone).symm, by decide⟩
  · obtain rfl : sub = sub' := Option.some.inj (hs.symm.trans h₁)
    exact ⟨h₂, h₃⟩

/-- The effect of a delivery commits: the reference makes the same delivery from beginning to end,
and both arrive at the same row and the same live lots. -/
theorem commit (h : Agrees plans s₀ s committed received) {row : Subscription} {live : List Lot} {granted : String → Bool}
    (honce : OnceResult (Feed.reference plans s₀ committed) d row live granted
      (deliverOnce plans (Feed.reference plans s₀ committed) d))
    (hnew : s₀.applied d.event = false) (hdone : d.event ∉ committed.map (·.event))
    (hrow : s'.subscription = some row) (hlive : s'.ledger.live = live)
    (hgranted : ∀ e, s'.ledger.grantedFor e = granted e) (happ : ∀ e, s'.applied e = s.applied e)
    (hclosed : row.cancelAtPeriodEnd = true → row.lapsed = row ∧ ∀ l ∈ live, l.isDue row.periodEnd = false) :
    Agrees plans s₀ s' (committed ++ [d]) received := by
  have href : Feed.reference plans s₀ (committed ++ [d]) = deliverOnce plans (Feed.reference plans s₀ committed) d := by
    simp [Feed.reference]
  have hmap : (committed ++ [d]).map (·.event) = committed.map (·.event) ++ [d.event] := by simp
  refine ⟨?_, fun e he => ?_, fun e he => ?_, fun e he => ?_, fun e he => ?_, ?_, fun e => ?_, Or.inl ?_, fun sub hs hc _ => ?_⟩
  · rw [hmap]
    exact List.nodup_append.mpr ⟨h.once, by simp, fun a ha b hb e => hdone (by simp at hb; rwa [← hb, ← e])⟩
  · rw [hmap] at he
    rcases List.mem_append.mp he with he | he
    · exact h.new e he
    · rwa [List.mem_singleton.mp he]
  · rw [happ] at he
    rw [hmap]
    exact (h.applied e he).imp_right fun h => List.mem_append_left _ h
  · rw [happ]
    exact h.kept e he
  · rw [href] at he
    rw [hmap]
    rcases honce.applied e he with he | rfl
    · exact (h.referenceApplied e he).imp_right fun h => List.mem_append_left _ h
    · exact Or.inr (by simp)
  · rw [href, hrow, honce.row]
  · rw [href, hgranted, honce.granted]
  · rw [href, hlive, honce.live]
  · obtain rfl : row = sub := Option.some.inj (hrow.symm.trans hs)
    rw [hlive]
    exact hclosed hc

end Agrees

/-- What is known of the handler at each point of a delivery. -/
def AtPoint (plans : String → Option Plan) (s₀ : Store) (f : Feed) (d : Delivery) : WebhookPc → Prop
  | .insert => True
  | .lookup => True
  | .effect .read => s₀.applied d.event = false
  | .effect (.sweep sub plan) =>
    s₀.applied d.event = false ∧ f.store.subscription = some sub ∧ plans sub.planId = some plan
  | .effect .lapse =>
    s₀.applied d.event = false ∧ ∃ sub plan, f.store.subscription = some sub ∧ plans sub.planId = some plan ∧
      sub.lapses = true ∧ (∀ l ∈ f.store.ledger.live, l.isDue sub.periodEnd = false) ∧
      (d.event ∉ f.done ∨ sub.cancelAtPeriodEnd = true)
  | .effect (.write sub plan) =>
    s₀.applied d.event = false ∧ f.store.subscription = some sub ∧ plans sub.planId = some plan ∧
      sub.lapses = false ∧ (∀ l ∈ f.store.ledger.live, l.isDue sub.periodEnd = false) ∧ d.event ∉ f.done
  | .effect .reread => d.event ∈ f.done
  | .effect (.returned _) => False
  | .effect (.threw _) => False
  | .mark => d.event ∈ f.done
  | .responded _ => False

/-- The feed is in step with its reference. -/
structure InStep (plans : String → Option Plan) (s₀ : Store) (f : Feed) : Prop where
  agrees : Agrees plans s₀ f.store f.committed f.received
  point : ∀ d pc, f.current = some (d, pc) → d.event ∈ f.received ∧ AtPoint plans s₀ f d pc

/-- A sweep that the action runs is for an event whose effect was not committed before, or for a
subscription that is to lapse at its boundary. -/
def Feed.sweepsFresh (f : Feed) (a : FeedAction) : Bool :=
  match f.current, a with
  | some (d, .effect (.sweep sub _)), .advance _ => !(f.done.contains d.event) || sub.cancelAtPeriodEnd
  | _, _ => true

/-- The condition on a step. -/
def Fresh (f : Feed) (a : FeedAction) (_ : Feed) : Prop := f.sweepsFresh a = true

theorem lapses_of_cancel {sub : Subscription} (h : sub.cancelAtPeriodEnd = true) : sub.lapses = true := by
  simp [Subscription.lapses, h]

/-- What an advance leads to. -/
theorem advance_next {f f' : Feed} {clock : ℤ} {d : Delivery} {pc : WebhookPc} (hc : f.current = some (d, pc))
    (h : Feed.Step plans f (.advance clock) f') {pc' : WebhookPc} {s' : Store}
    (hstep : WebhookPc.step plans d clock pc f.store = (pc', s')) :
    f' = ⟨s', if pc'.isDone then none else some (d, pc'), f.received,
      if commits pc pc' && !(f.done.contains d.event) then f.committed ++ [d] else f.committed⟩ := by
  unfold Feed.Step Feed.next at h
  simp only [hc, hstep, Option.some.injEq] at h
  exact h.symm

namespace InStep

variable {s₀ : Store} {f f' : Feed} {d : Delivery} {clock : ℤ}

/-- An advance that commits nothing, to a point where `AtPoint` holds. -/
theorem advance_plain {pc pc' : WebhookPc} {s' : Store} (hrec : d.event ∈ f.received)
    (hcom : commits pc pc' = false) (hag : Agrees plans s₀ s' f.committed f.received)
    (hpoint : pc'.isDone = false → AtPoint plans s₀ ⟨s', some (d, pc'), f.received, f.committed⟩ d pc') :
    InStep plans s₀ ⟨s', if pc'.isDone then none else some (d, pc'), f.received,
      if commits pc pc' && !(f.done.contains d.event) then f.committed ++ [d] else f.committed⟩ := by
  rw [hcom, Bool.false_and, if_neg Bool.false_ne_true]
  refine ⟨hag, fun d₁ pc₁ h₁ => ?_⟩
  cases hdone : pc'.isDone
  · simp only [hdone, Bool.false_eq_true, if_false, Option.some.injEq, Prod.mk.injEq] at h₁ ⊢
    obtain ⟨rfl, rfl⟩ := h₁
    exact ⟨hrec, hpoint hdone⟩
  · simp [hdone] at h₁

/-- An advance that commits an event not committed before. -/
theorem advance_commit {pc pc' : WebhookPc} {s' : Store} (hrec : d.event ∈ f.received)
    (hcom : commits pc pc' = true) (hnew : d.event ∉ f.done)
    (hag : Agrees plans s₀ s' (f.committed ++ [d]) f.received) :
    InStep plans s₀ ⟨s', if pc'.isDone then none else some (d, pc'), f.received,
      if commits pc pc' && !(f.done.contains d.event) then f.committed ++ [d] else f.committed⟩ := by
  have hc : f.done.contains d.event = false := by simpa using hnew
  have hmem : d.event ∈ (f.committed ++ [d]).map (·.event) := by simp
  rw [hcom, hc, if_pos (show (true && !false) = true from rfl)]
  refine ⟨hag, fun d₁ pc₁ h₁ => ?_⟩
  unfold commits at hcom
  split at hcom
  · cases h₁
    exact ⟨hrec, hmem⟩
  · cases h₁
    exact ⟨hrec, hmem⟩
  · cases h₁
    exact ⟨hrec, hmem⟩
  · cases hcom

/-- The handler's next call keeps the feed in step. -/
theorem advance (h : InStep plans s₀ f) (hs : Feed.Step plans f (.advance clock) f')
    (hfresh : Fresh f (.advance clock) f') : InStep plans s₀ f' := by
  rcases hc : f.current with _ | ⟨d, pc⟩
  · simp [Feed.Step, Feed.next, hc] at hs
  obtain ⟨hrec, hpoint⟩ := h.point d pc hc
  have hag := h.agrees
  cases pc with
  | insert =>
    rcases hr : f.store.eventRow d.event with _ | row
    · have hstep : WebhookPc.step plans d clock .insert f.store = (.effect .read, f.store.receive d.event) := by
        simp [WebhookPc.step, hr]
      rw [advance_next hc hs hstep]
      refine advance_plain hrec rfl (hag.events rfl rfl (fun e he => ?_) fun e he => ?_) fun _ => ?_
      · rw [applied_receive] at he
        exact Or.inl he
      · rwa [applied_receive]
      · -- an event without a row was not applied
        by_contra hne
        have hk := hag.kept d.event (by simpa [AtPoint] using hne)
        simp [Store.applied, hr] at hk
    · have hstep : WebhookPc.step plans d clock .insert f.store = (.lookup, f.store) := by
        simp [WebhookPc.step, hr]
      rw [advance_next hc hs hstep]
      exact advance_plain hrec rfl hag fun _ => trivial
  | lookup =>
    by_cases ha : f.store.applied d.event
    · have hstep : WebhookPc.step plans d clock .lookup f.store = (.responded 200, f.store) := by
        simp [WebhookPc.step, ha]
      rw [advance_next hc hs hstep]
      exact advance_plain hrec rfl hag fun hd => by cases hd
    · have hstep : WebhookPc.step plans d clock .lookup f.store = (.effect .read, f.store) := by
        simp [WebhookPc.step, ha]
      rw [advance_next hc hs hstep]
      refine advance_plain hrec rfl hag fun _ => ?_
      by_contra hne
      exact ha (hag.kept d.event (by simpa [AtPoint] using hne))
  | effect pc =>
    cases pc with
    | read =>
      rcases hrow : f.store.subscription with _ | sub
      · have hstep : WebhookPc.step plans d clock (.effect .read) f.store = (.responded 500, f.store) := by
          simp [WebhookPc.step, RenewPc.step, hrow]
        rw [advance_next hc hs hstep]
        exact advance_plain hrec rfl hag fun hd => by cases hd
      · rcases hp : plans sub.planId with _ | plan
        · have hstep : WebhookPc.step plans d clock (.effect .read) f.store = (.responded 500, f.store) := by
            simp [WebhookPc.step, RenewPc.step, hrow, hp]
          rw [advance_next hc hs hstep]
          exact advance_plain hrec rfl hag fun hd => by cases hd
        · have hstep : WebhookPc.step plans d clock (.effect .read) f.store
              = (.effect (.sweep sub plan), f.store) := by
            simp [WebhookPc.step, read_step plans d.input hrow hp]
          rw [advance_next hc hs hstep]
          exact advance_plain hrec rfl hag fun _ => ⟨hpoint, hrow, hp⟩
    | sweep sub plan =>
      obtain ⟨hnew, hrow, hp⟩ := hpoint
      have hcond : d.event ∉ f.done ∨ sub.cancelAtPeriodEnd = true := by
        simpa [Fresh, Feed.sweepsFresh, hc] using hfresh
      rcases sweep_step plans d.input sub plan clock f.store with
        ⟨l, hl, hlive, hdue, hgranted⟩ | ⟨e, he⟩
      · have hag' := hag.sweep hrow hlive hdue hgranted hrec hnew hcond
        have hnone : ∀ lot ∈ l.live, lot.isDue sub.periodEnd = false := by
          rw [hlive]
          exact none_due_filter _ _
        by_cases hlapse : sub.lapses
        · have hstep : WebhookPc.step plans d clock (.effect (.sweep sub plan)) f.store
              = (.effect .lapse, { f.store with ledger := l }) := by
            simp only [WebhookPc.step, hl, hlapse, if_true]
          rw [advance_next hc hs hstep]
          exact advance_plain hrec rfl hag' fun _ => ⟨hnew, sub, plan, hrow, hp, hlapse, hnone, hcond⟩
        · have hlapse' : sub.lapses = false := by simpa using hlapse
          have hstep : WebhookPc.step plans d clock (.effect (.sweep sub plan)) f.store
              = (.effect (.write sub plan), { f.store with ledger := l }) := by
            simp only [WebhookPc.step, hl, hlapse', Bool.false_eq_true, if_false]
          rw [advance_next hc hs hstep]
          refine advance_plain hrec rfl hag' fun _ => ⟨hnew, hrow, hp, hlapse', hnone, ?_⟩
          exact hcond.resolve_right fun hcancel => hlapse (lapses_of_cancel hcancel)
      · have hstep : WebhookPc.step plans d clock (.effect (.sweep sub plan)) f.store = (.responded 500, f.store) := by
          simp only [WebhookPc.step, he]
        rw [advance_next hc hs hstep]
        exact advance_plain hrec rfl hag fun hd => by cases hd
    | lapse =>
      obtain ⟨hnew, sub, plan, hrow, hp, hlapse, hnone, hcond⟩ := hpoint
      have hstep : WebhookPc.step plans d clock (.effect .lapse) f.store
          = (.mark, { f.store with subscription := some sub.lapsed }) := by
        simp only [WebhookPc.step, lapse_step plans d.input hrow]
      rw [advance_next hc hs hstep]
      by_cases hdone : d.event ∈ f.done
      · -- lapsed before: the row is written as it is
        have hne : f.committed ≠ [] := by
          intro hnil
          simp [Feed.done, hnil] at hdone
        have hsame := (hag.closed sub hrow (hcond.resolve_left (not_not.mpr hdone)) hne).1
        have hcontains : f.done.contains d.event = true := by simpa using hdone
        rw [show commits (.effect .lapse) .mark = true from rfl, hcontains, if_neg (by decide), if_neg (by decide)]
        rw [hsame, ← hrow]
        refine ⟨hag, fun d₁ pc₁ h₁ => ?_⟩
        simp only [Option.some.injEq, Prod.mk.injEq] at h₁
        obtain ⟨rfl, rfl⟩ := h₁
        exact ⟨hrec, hdone⟩
      · obtain ⟨hlive, hdue⟩ := hag.live_swept hrow hnone
        have happ : (Feed.reference plans s₀ f.committed).applied d.event = false := by
          by_contra hne
          rcases hag.referenceApplied d.event (by simpa using hne) with h₁ | h₁
          · rw [hnew] at h₁
            cases h₁
          · exact hdone h₁
        have honce := once_lapse happ (hag.row ▸ hrow) hp hdue hlapse
        refine advance_commit hrec rfl hdone (hag.commit honce hnew hdone rfl hlive hag.granted (fun _ => rfl) fun _ => ?_)
        rw [← hlive]
        exact ⟨rfl, hnone⟩
    | write sub plan =>
      obtain ⟨hnew, hrow, hp, hlapse, hnone, hdone⟩ := hpoint
      rcases write_commits plans d hrow plan clock with
        ⟨hg, pc', s', hw, hpc, h₁, h₂, h₃, h₄⟩ | ⟨-, e, hw⟩
      · obtain ⟨hlive, hdue⟩ := hag.live_swept hrow hnone
        have happ : (Feed.reference plans s₀ f.committed).applied d.event = false := by
          by_contra hne
          rcases hag.referenceApplied d.event (by simpa using hne) with h₁ | h₁
          · rw [hnew] at h₁
            cases h₁
          · exact hdone h₁
        have honce := once_write happ (hag.row ▸ hrow) hp hdue hlapse hg
        dsimp only at honce
        rw [← hlive, ← afterWrite_congr hag.granted] at honce
        have hcancel : (afterWrite d sub plan f.store.ledger.live f.store.ledger.grantedFor).1.cancelAtPeriodEnd = false := by
          have : sub.cancelAtPeriodEnd = false := by
            by_contra hne
            rw [lapses_of_cancel (by simpa using hne)] at hlapse
            cases hlapse
          unfold afterWrite
          split
          · split <;> exact this
          · exact this
        have hag' := hag.commit honce hnew hdone h₁ h₂ h₃
          (fun e => by simp only [Store.applied, Store.eventRow, h₄]) fun hc => by
            rw [hcancel] at hc
            cases hc
        rcases hpc with ⟨m, rfl⟩ | rfl
        · have hstep : WebhookPc.step plans d clock (.effect (.write sub plan)) f.store = (.mark, s') := by
            simp only [WebhookPc.step, hw]
          rw [advance_next hc hs hstep]
          exact advance_commit hrec rfl hdone hag'
        · have hstep : WebhookPc.step plans d clock (.effect (.write sub plan)) f.store = (.effect .reread, s') := by
            simp only [WebhookPc.step, hw]
          rw [advance_next hc hs hstep]
          exact advance_commit hrec rfl hdone hag'
      · have hstep : WebhookPc.step plans d clock (.effect (.write sub plan)) f.store = (.responded 500, f.store) := by
          simp only [WebhookPc.step, hw]
        rw [advance_next hc hs hstep]
        exact advance_plain hrec rfl hag fun hd => by cases hd
    | reread =>
      rcases hrow : f.store.subscription with _ | sub
      · have hstep : WebhookPc.step plans d clock (.effect .reread) f.store = (.responded 500, f.store) := by
          simp [WebhookPc.step, RenewPc.step, hrow]
        rw [advance_next hc hs hstep]
        exact advance_plain hrec rfl hag fun hd => by cases hd
      · have hstep : WebhookPc.step plans d clock (.effect .reread) f.store = (.mark, f.store) := by
          simp [WebhookPc.step, RenewPc.step, hrow]
        rw [advance_next hc hs hstep]
        exact advance_plain hrec rfl hag fun _ => hpoint
    | returned m => exact hpoint.elim
    | threw e => exact hpoint.elim
  | mark =>
    have hstep : WebhookPc.step plans d clock .mark f.store = (.responded 200, f.store.markApplied d.event clock) := rfl
    rw [advance_next hc hs hstep]
    refine advance_plain hrec rfl (hag.events rfl rfl (fun e he => ?_) fun e he => applied_of_markApplied clock he)
      fun hd => by cases hd
    rcases applied_markApplied clock he with h₁ | rfl
    · exact Or.inl h₁
    · exact Or.inr hpoint
  | responded status => exact hpoint.elim

/-- Every step that meets the condition keeps the feed in step. -/
theorem next (h : InStep plans s₀ f) {a : FeedAction} (hs : Guarded (Feed.Step plans) Fresh f a f') :
    InStep plans s₀ f' := by
  obtain ⟨hs, hfresh⟩ := hs
  cases a with
  | receive d =>
    rcases hc : f.current with _ | p
    · simp only [Feed.Step, Feed.next, hc, Option.some.injEq] at hs
      subst hs
      refine ⟨h.agrees.receive d.event, fun d₁ pc₁ h₁ => ?_⟩
      simp only [Option.some.injEq, Prod.mk.injEq] at h₁
      obtain ⟨rfl, rfl⟩ := h₁
      exact ⟨List.mem_cons_self .., trivial⟩
    · simp [Feed.Step, Feed.next, hc] at hs
  | advance clock => exact h.advance hs hfresh
  | crash =>
    rcases hc : f.current with _ | p
    · simp [Feed.Step, Feed.next, hc] at hs
    · simp only [Feed.Step, Feed.next, hc, Option.some.injEq] at hs
      subst hs
      exact ⟨h.agrees, fun _ _ h₁ => by cases h₁⟩

/-- Every run whose steps meet the condition is in step. -/
theorem reaches (h : Reaches (Guarded (Feed.Step plans) Fresh) (Feed.start s₀) f) : InStep plans s₀ f :=
  h.inv ⟨Agrees.start s₀, fun _ _ h => by cases h⟩ fun _ _ _ hu hs => hu.next hs

end InStep

/-- A delivery of an event whose effect was committed before leaves the live lots alone. -/
theorem redelivery_keeps_lots {s₀ : Store} {f f' : Feed} {d : Delivery} {pc : WebhookPc} {clock : ℤ}
    (h : InStep plans s₀ f) (hc : f.current = some (d, pc)) (hdone : d.event ∈ f.done)
    (hs : Guarded (Feed.Step plans) Fresh f (.advance clock) f') : f'.store.ledger.live = f.store.ledger.live := by
  obtain ⟨hs, hfresh⟩ := hs
  obtain ⟨-, hpoint⟩ := h.point d pc hc
  rcases hstep : WebhookPc.step plans d clock pc f.store with ⟨pc', s'⟩
  rw [advance_next hc hs hstep]
  show s'.ledger.live = f.store.ledger.live
  cases pc with
  | insert =>
    simp only [WebhookPc.step] at hstep
    split at hstep <;> cases hstep <;> rfl
  | lookup =>
    simp only [WebhookPc.step] at hstep
    split at hstep <;> cases hstep <;> rfl
  | effect pc =>
    cases pc with
    | read =>
      simp only [WebhookPc.step, RenewPc.step] at hstep
      rcases hrow : f.store.subscription with _ | sub <;> rw [hrow] at hstep
      · cases hstep
        rfl
      · rcases hp : plans sub.planId with _ | plan <;> simp only [hp] at hstep <;> cases hstep <;> rfl
    | sweep sub plan =>
      obtain ⟨-, hrow, -⟩ := hpoint
      have hcancel : sub.cancelAtPeriodEnd = true := by
        have : d.event ∉ f.done ∨ sub.cancelAtPeriodEnd = true := by
          simpa [Fresh, Feed.sweepsFresh, hc] using hfresh
        exact this.resolve_left (not_not.mpr hdone)
      have hne : f.committed ≠ [] := by
        intro hnil
        simp [Feed.done, hnil] at hdone
      have hnone := (h.agrees.closed sub hrow hcancel hne).2
      rcases sweep_step plans d.input sub plan clock f.store with ⟨l, hl, hlive, -, -⟩ | ⟨e, he⟩
      · simp only [WebhookPc.step, hl, lapses_of_cancel hcancel, if_true] at hstep
        cases hstep
        rw [hlive]
        exact filter_of_none_due hnone
      · simp only [WebhookPc.step, he] at hstep
        cases hstep
        rfl
    | lapse =>
      obtain ⟨-, sub, plan, hrow, -⟩ := hpoint
      simp only [WebhookPc.step, lapse_step plans d.input hrow] at hstep
      cases hstep
      rfl
    | write sub plan => exact absurd hdone hpoint.2.2.2.2.2
    | reread =>
      simp only [WebhookPc.step, RenewPc.step] at hstep
      rcases hrow : f.store.subscription with _ | sub <;> rw [hrow] at hstep <;> cases hstep <;> rfl
    | returned m => exact hpoint.elim
    | threw e => exact hpoint.elim
  | mark =>
    cases hstep
    rfl
  | responded status => exact hpoint.elim

/-! ### Each event once -/

/-- **Renewal events are idempotent** in every feed whose sweeps are fresh. Each event is committed
at most once, and never if it was applied before the feed began. The row is always that of the
reference, and once every event received is applied, so is every balance. A delivery of an event
committed before takes no credits out of any lot. -/
theorem renewal_events_idempotent (plans : String → Option Plan) (s₀ : Store) (f : Feed)
    (h : Reaches (Guarded (Feed.Step plans) Fresh) (Feed.start s₀) f) :
    f.done.Nodup ∧ (∀ e ∈ f.done, s₀.applied e = false) ∧
    f.store.subscription = (Feed.reference plans s₀ f.committed).subscription ∧
    ((∀ e ∈ f.received, e ∈ f.done ∨ s₀.applied e = true) →
      ∀ t, balanceOf f.store.ledger t = balanceOf (Feed.reference plans s₀ f.committed).ledger t) ∧
    (∀ d pc clock f', f.current = some (d, pc) → d.event ∈ f.done →
      Guarded (Feed.Step plans) Fresh f (.advance clock) f' → f'.store.ledger.live = f.store.ledger.live) := by
  have hin := InStep.reaches h
  refine ⟨hin.agrees.once, hin.agrees.new, hin.agrees.row, fun hall t => ?_, fun d pc clock f' hc hdone hs =>
    redelivery_keeps_lots hin hc hdone hs⟩
  rcases hin.agrees.live with hl | ⟨-, e, -, -, -, hrec, hdone, hnew⟩
  · exact balanceOf_congr hl t
  · rcases hall e hrec with he | he
    · exact absurd he hdone
    · rw [hnew] at he
      cases he

/-- The calls of a delivery that goes well. -/
def delivered (d : Delivery) : List FeedAction :=
  .receive d :: List.replicate 5 (.advance (d.now + 1))

/-- A delivery that dies after its sweep, and is made again. -/
def diesAfterSweep : List FeedAction :=
  [.receive ⟨"evt_1", periodMs⟩, .advance 0, .advance 0, .advance 0, .crash] ++ delivered ⟨"evt_1", periodMs + 60000⟩ ++ [.advance 0]

theorem renewal_events_idempotent_diesAfterSweep :
    ∃ f, Reaches (Guarded (Feed.Step onlyPro) Fresh) (Feed.start subscriber) f ∧ f.received = ["evt_1", "evt_1"] ∧
      f.done = ["evt_1"] ∧ f.store.applied "evt_1" = true ∧ (balanceOf f.store.ledger (periodMs + 60000)).plan = 1200 ∧
      ∀ t, balanceOf f.store.ledger t = balanceOf (Feed.reference onlyPro subscriber f.committed).ledger t := by
  obtain ⟨f, hrun, hrec, hdone, happ, hbal⟩ :=
    Reaches.exists_of_play (Feed.next onlyPro) Feed.sweepsFresh (Feed.start subscriber)
      diesAfterSweep (fun f => f.received = ["evt_1", "evt_1"] ∧ f.done = ["evt_1"] ∧ f.store.applied "evt_1" = true ∧
        (balanceOf f.store.ledger (periodMs + 60000)).plan = 1200) (by decide)
  refine ⟨f, hrun, hrec, hdone, happ, hbal, (renewal_events_idempotent onlyPro subscriber f hrun).2.2.2.1 fun e he => ?_⟩
  rw [hrec] at he
  exact Or.inl (by rw [hdone]; simpa using he)

/-- A delivery that commits and dies before the event is marked applied, and is made again. -/
def diesBeforeMark : List FeedAction :=
  [.receive ⟨"evt_1", periodMs⟩, .advance 0, .advance 0, .advance 0, .advance 0, .crash] ++
    delivered ⟨"evt_1", periodMs + 60000⟩ ++ [.advance 0, .advance 0]

/-- **A renewal run again destroys its own grant**: the provider delivers one event, until it is
applied; the subscriber ends up without plan credits, where delivering it once leaves 1200. -/
theorem rerun_destroys_grant :
    ∃ f, Reaches (Feed.Step onlyPro) (Feed.start subscriber) f ∧ f.current = none ∧ f.received = ["evt_1", "evt_1"] ∧
      f.store.applied "evt_1" = true ∧ f.store.subscription = (deliverOnce onlyPro subscriber ⟨"evt_1", periodMs⟩).subscription ∧
      (balanceOf f.store.ledger (periodMs + 60000)).plan = 0 ∧
      (balanceOf (deliverOnce onlyPro subscriber ⟨"evt_1", periodMs⟩).ledger (periodMs + 60000)).plan = 1200 := by
  obtain ⟨f, hrun, h⟩ :=
    Reaches.exists_of_play (Feed.next onlyPro) (fun _ _ => true) (Feed.start subscriber)
      diesBeforeMark (fun f => f.current = none ∧ f.received = ["evt_1", "evt_1"] ∧ f.store.applied "evt_1" = true ∧
        f.store.subscription = (deliverOnce onlyPro subscriber ⟨"evt_1", periodMs⟩).subscription ∧
        (balanceOf f.store.ledger (periodMs + 60000)).plan = 0 ∧
        (balanceOf (deliverOnce onlyPro subscriber ⟨"evt_1", periodMs⟩).ledger (periodMs + 60000)).plan = 1200) (by decide)
  exact ⟨f, hrun.of_guarded, h⟩

end WebAudit.Billing
