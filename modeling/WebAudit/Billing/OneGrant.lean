import Mathlib.Data.Fintype.Basic
import WebAudit.Billing.Payment
import WebAudit.Billing.Renewal
import WebAudit.Lib.Pool
import WebAudit.Lib.Runs

/-!
# One grant for each payment

Everything that happens to one pending payment at once: deliveries of the events about it,
any number of them in any order and each any number of times, and sweeps that give up on
it; each call of each of them at any time, and any of them dying in between. The purchase
should be granted once, and the payment should say so.

`Till` is the state of it all. `ids` are the ids of the events about the payment; what is
granted can be read off the ledger, as the rows that carry one of them.

An event grants at most once, a payment that says `SUCCEEDED` was granted, and a payment
that was closed stays as it was closed: a success that comes too late is applied without an
error and without a grant (`applied_too_late`). Beyond that it takes that the window between
the read that finds the payment pending and the write that closes it is not shared with
another event or a sweep (`Till.alone`): then there is one grant at most, and the
payment is `SUCCEEDED` as soon as the calls that granted have come to their end
(`one_grant_per_payment`).
-/

namespace WebAudit.Billing

open WebAudit.Lib WebAudit.Credits

/-- A delivery in progress. -/
structure Call where
  event : PaymentEvent
  /-- The call read the payment, and it was pending. -/
  sawPending : Bool
  pc : PaymentPc
  deriving DecidableEq

inductive Task where
  | call (c : Call)
  | sweep (input : SweepInput) (pc : SweepPc)
  deriving DecidableEq

/-- The tables, everyone at work on them, and the events whose call died between its grant and the
closing of the payment. -/
structure Till (ι : Type) where
  tables : Tables
  tasks : ι → Option Task
  abandoned : List PaymentEvent

inductive TillAction (ι : Type) where
  | deliver (worker : ι) (event : PaymentEvent)
  | sweep (worker : ι) (input : SweepInput)
  /-- The next call of a worker. -/
  | advance (worker : ι) (clock : ℤ)
  /-- A worker dies, or its caller goes on. -/
  | leave (worker : ι)
  /-- Something else happens to the user's tables, and checkouts begin. -/
  | elsewhere (store : Store) (opened : List PendingPayment)

/-- The rows of the ledger that carry the event. -/
def Store.grants (s : Store) (event : String) : ℕ := s.ledger.transactions.countP (·.billingEventId = some event)

/-- The grants for the event. -/
def Tables.grants (s : Tables) (event : String) : ℕ := s.store.grants event

/-- The status of a payment. -/
def Tables.statusOf (s : Tables) (id : ℕ) : Option PendingPaymentStatus := (s.payments[id]?).map (·.status)

/-- The call found the payment pending, and has not closed it yet. -/
def PaymentPc.inWindow : PaymentPc → Bool
  | .loadPlan _ | .subscribe _ _ _ | .reload _ | .entitle _ _ | .freePlan _ _ | .purchase _ _ | .receipt _
  | .transition _ _ => true
  | _ => false

/-- The call has granted, and has not closed the payment yet. -/
def Call.holds (c : Call) : Bool :=
  match c.pc with
  | .receipt _ | .transition _ _ => c.event.type = .paymentSucceeded
  | _ => false

/-- The call is in the window, for another event than this. -/
def Task.intrudes (task : Task) (event : PaymentEvent) : Bool :=
  match task with
  | .call c => c.pc.inWindow && c.event ≠ event
  | .sweep _ _ => false

/-- The call is in the window. -/
def Task.inWindow : Task → Bool
  | .call c => c.pc.inWindow
  | .sweep _ _ => false

section Steps

variable {ι : Type} [DecidableEq ι] (plans : String → Option Plan) (number : String → Option ℤ)
variable (ref : String) (ids : List String)

/-- Nobody is at work yet. -/
def Till.opening (s : Tables) : Till ι := ⟨s, fun _ => none, []⟩

/-- The payment is pending under this id. -/
def Tables.pendingId (s : Tables) : Option ℕ :=
  (s.findPendingPayment ref).bind fun found => if found.2.status = .PENDING then some found.1 else none

/-- An idle worker begins. -/
def Till.begin (t : Till ι) (worker : ι) (task : Task) : Option (Till ι) :=
  match t.tasks worker with
  | some _ => none
  | none => some { t with tasks := Function.update t.tasks worker (some task) }

/-- The next call of a task. -/
def Task.step (clock : ℤ) (task : Task) (s : Tables) : Task × Tables :=
  match task with
  | .call c =>
    let reads := match c.pc with
      | .read _ => (s.pendingId c.event.providerReference).isSome
      | _ => false
    let (pc, s') := PaymentPc.step plans number c.event clock c.pc s
    (.call ⟨c.event, reads || c.sawPending, pc⟩, s')
  | .sweep input pc =>
    let (pc', s') := SweepPc.step input pc s
    (.sweep input pc', s')

/-- What an action leads to, where it is possible. -/
def Till.next (t : Till ι) : TillAction ι → Option (Till ι)
  | .deliver worker event =>
    if event.providerReference = ref ∧ event.id ∈ ids then t.begin worker (.call ⟨event, false, .insert⟩) else none
  | .sweep worker input => t.begin worker (.sweep input .read)
  | .advance worker clock =>
    (t.tasks worker).map fun task =>
      let (task', s) := task.step plans number clock t.tables
      { t with tables := s, tasks := Function.update t.tasks worker (some task') }
  | .leave worker =>
    (t.tasks worker).map fun task =>
      { t with
        tasks := Function.update t.tasks worker none
        abandoned :=
          match task with
          | .call c => if c.holds then t.abandoned ++ [c.event] else t.abandoned
          | .sweep _ _ => t.abandoned }
  | .elsewhere store opened =>
    if (∀ e ∈ ids, store.grants e = t.tables.grants e) ∧ ∀ p ∈ opened, p.providerReference ≠ ref then
      some { t with tables := { t.tables with store := store, payments := t.tables.payments ++ opened } }
    else none

/-- The till as a transition system. -/
def Till.Step (t : Till ι) (a : TillAction ι) (t' : Till ι) : Prop := t.next plans number ref ids a = some t'

/-- The condition on an action: while a call is in the window, no call for another event enters it
and no sweep closes the payment; and neither does before the event of a call that died there after its
grant has been delivered again. -/
def Till.alone [Fintype ι] (t : Till ι) (a : TillAction ι) : Bool :=
  match a with
  | .advance worker _ =>
    match t.tasks worker with
    | some (.call ⟨event, _, .read _⟩) =>
      t.tables.pendingId ref = none ||
        decide (∀ j, (t.tasks j).any (·.intrudes event) = false) && t.abandoned.all (· = event)
    | some (.sweep _ (.expire (id :: _) _)) =>
      t.tables.pendingId ref ≠ some id || decide (∀ j, (t.tasks j).any (·.inWindow) = false) && t.abandoned = []
    | _ => true
  | _ => true

/-- The payment as a checkout leaves it: pending, and nothing is granted for the events about it. -/
structure Tables.Awaits (s : Tables) (id : ℕ) : Prop where
  located : s.locate ref = some id
  pending : s.statusOf id = some .PENDING
  fresh : ∀ e ∈ ids, s.grants e = 0

end Steps

/-! ### What the transactions grant -/

theorem Store.grants_eq_zero {s : Store} {e : String} : s.grants e = 0 ↔ s.ledger.grantedFor e = false := by
  unfold Store.grants Ledger.grantedFor Ledger.taken
  rw [List.countP_eq_zero, List.any_eq_false]
  simp

/-- A row for the event is added to the ledger, where there was none. -/
def Granted (e : String) (s s' : Store) : Prop :=
  s.grants e = 0 ∧ ∀ e', s'.grants e' = s.grants e' + if e' = e then 1 else 0

/-- What a transaction that grants for an event may come to. -/
def Grants {α : Type} (e : String) (s : Store) : Except BillingError α × Store → Prop
  | (.ok _, s') => Granted e s s'
  | (.error (.credits (.duplicateBillingEventGrant _)), s') => s' = s ∧ 0 < s.grants e
  | (.error _, s') => s' = s

/-- A grant inside a transaction, after a write that touches no credits, and before nothing. -/
theorem grants_transaction {α : Type} {clock : ℤ} {input : GrantInput} {e : String} (he : input.billingEventId = some e)
    {f : Store → Store} (hf : ∀ s, (f s).ledger = s.ledger) (a : α) (s : Store) :
    Grants e s ((Db.transaction (do
      Db.modify f
      let _ ← onLedger (grantLot clock input)
      pure a) : BillingM α).run s) := by
  have hrun := grantLot_run (s := s.ledger) clock input he
  rw [Db.run_transaction, Db.run_modify_bind]
  by_cases hr : input.amount ≤ 0 ∨ int4Max < input.amount
  · rw [if_pos hr] at hrun
    rw [Db.run_bind_error (onLedger_error (s := f s) (hf s ▸ hrun))]
    rfl
  · rw [if_neg hr] at hrun
    by_cases hd : s.ledger.grantedFor e
    · rw [if_pos hd] at hrun
      rw [Db.run_bind_error (onLedger_error (s := f s) (hf s ▸ hrun))]
      refine ⟨rfl, Nat.pos_of_ne_zero fun h => ?_⟩
      rw [Store.grants_eq_zero.mp h] at hd
      cases hd
    · rw [if_neg hd] at hrun
      rw [Db.run_bind_ok (onLedger_ok (s := f s) (hf s ▸ hrun))]
      refine ⟨Store.grants_eq_zero.mpr ((Bool.not_eq_true _).mp hd), fun e' => ?_⟩
      unfold Store.grants Ledger.insertLot Ledger.insertTransaction GrantInput.transaction
      rw [hf s, List.countP_append, List.countP_singleton, he]
      simp [eq_comm]

theorem subscribe_grants (input : SubscribeInput) (plan : Plan) (clock : ℤ) {e : String}
    (he : input.billingEventId = some e) (s : Store) : Grants e s ((subscribeTransaction input plan clock).run s) :=
  grants_transaction he (f := fun s => { s with subscription := some input.row }) (fun _ => rfl) _ s

theorem purchase_grants (credits : ℤ) (e : String) (clock : ℤ) (s : Store) :
    Grants e s ((purchaseTransaction credits e clock).run s) :=
  grants_transaction (e := e) rfl (f := id) (fun _ => rfl) () s

/-! ### The rows of the payments -/

section Rows

variable {s s' : Tables} {ref : String} {id p : ℕ} {status : PendingPaymentStatus}

theorem transition_locate (s : Tables) (id : ℕ) (status : PendingPaymentStatus) (ref : String) :
    (s.transitionPendingPayment id status).2.locate ref = s.locate ref := by
  unfold Tables.transitionPendingPayment Tables.locate
  split
  · rfl
  · rename_i pending hp
    split
    · have hkey : ∀ l : List PendingPayment, l.findIdx? (fun r => decide (r.providerReference = ref)) =
          (l.map (·.providerReference)).findIdx? (fun r => decide (r = ref)) := fun l => by
        rw [List.findIdx?_map]
        rfl
      have hset : (s.payments.map (·.providerReference)).set id pending.providerReference =
          s.payments.map (·.providerReference) := by
        obtain ⟨hlt, hget⟩ := List.getElem?_eq_some_iff.mp hp
        refine List.ext_getElem (by simp) fun i _ _ => ?_
        rw [List.getElem_set]
        split
        · rename_i heq
          subst heq
          simp [hget]
        · rfl
      rw [hkey, hkey, List.map_set, hset]
    · rfl

theorem transition_status (s : Tables) (id : ℕ) (status : PendingPaymentStatus) (p : ℕ) :
    (s.transitionPendingPayment id status).2.statusOf p =
      if id = p ∧ s.statusOf p = some .PENDING then some status else s.statusOf p := by
  unfold Tables.transitionPendingPayment Tables.statusOf
  by_cases hid : id = p
  · subst hid
    rcases hp : s.payments[id]? with _ | pending
    · simp [hp]
    · obtain ⟨hlt, hget⟩ := List.getElem?_eq_some_iff.mp hp
      by_cases hs : pending.status = .PENDING <;> simp [hs, hlt, hget]
  · rw [if_neg (fun h => hid h.1)]
    split
    · rfl
    · split
      · dsimp only
        rw [List.getElem?_set_ne hid]
      · rfl

theorem pendingId_eq (h : s.locate ref = some p) :
    s.pendingId ref = if s.statusOf p = some .PENDING then some p else none := by
  unfold Tables.pendingId Tables.findPendingPayment Tables.statusOf
  rw [h, Option.bind_some]
  rcases s.payments[p]? with _ | pending
  · simp
  · by_cases hs : pending.status = .PENDING <;> simp [hs]

end Rows

theorem terminalStatus_ne {type : PaymentEventType} {status : PendingPaymentStatus}
    (h : type.terminalStatus = some status) : status ≠ .PENDING := by
  cases type <;> cases h <;> decide

theorem succeeded_of_status {type : PaymentEventType} (h : type.terminalStatus = some .SUCCEEDED) :
    type = .paymentSucceeded := by
  cases type <;> cases h
  rfl

/-! ### What a step does to the payment -/

variable {plans : String → Option Plan} {number : String → Option ℤ} {ref : String} {ids : List String} {p : ℕ}
variable {s s' : Tables} {c c' : Call} {clock : ℤ}

/-- What a call knows of its event and of the payment `p` it is about. -/
def Call.Knows (p : ℕ) (s : Tables) (c : Call) : Prop :=
  match c.pc with
  | .insert | .lookup => c.sawPending = false
  | .read status => c.sawPending = false ∧ c.event.type.terminalStatus = some status
  | .loadPlan id | .subscribe id _ _ | .entitle id _ | .freePlan id _ | .purchase id _ =>
    id = p ∧ c.event.type = .paymentSucceeded
  | .reload id | .receipt id => id = p ∧ c.event.type = .paymentSucceeded ∧ 0 < s.grants c.event.id
  | .transition id status => id = p ∧ c.event.type.terminalStatus = some status ∧
      (c.event.type = .paymentSucceeded → 0 < s.grants c.event.id)
  | .finalize | .returned _ => c.sawPending = true → s.statusOf p ≠ some .PENDING ∧
      (c.event.type = .paymentSucceeded → 0 < s.grants c.event.id)
  | .threw _ => True

/-- The call is about this payment. -/
def Call.About (ref : String) (ids : List String) (c : Call) : Prop := c.event.providerReference = ref ∧ c.event.id ∈ ids

/-- Nothing happens to the payment. -/
def Unmoved (p : ℕ) (s s' : Tables) : Prop := s'.statusOf p = s.statusOf p ∧ ∀ e, s'.grants e = s.grants e

/-- The payment is closed. -/
def Closed (p : ℕ) (status : PendingPaymentStatus) (s s' : Tables) : Prop :=
  s.statusOf p = some .PENDING ∧ s'.statusOf p = some status ∧ ∀ e, s'.grants e = s.grants e

/-- What the next call of a delivery comes to, as far as the payment is concerned. -/
inductive Call.Moves (p : ℕ) (s : Tables) (c : Call) : Call → Tables → Prop
  /-- The call goes on, or leaves the window. -/
  | idle {c₁ : Call} {s₁ : Tables} : Unmoved p s s₁ → (c₁.pc.inWindow = true → c.pc.inWindow = true) →
      (c.holds = true → c₁.holds = true ∨ s.statusOf p ≠ some .PENDING) → Call.Moves p s c c₁ s₁
  /-- The call finds the payment pending. -/
  | enter {c₁ : Call} {status : PendingPaymentStatus} : c.pc = .read status → s.statusOf p = some .PENDING → Call.Moves p s c c₁ s
  /-- The call grants. -/
  | grant {c₁ : Call} {s₁ : Tables} : c.pc.inWindow = true → c.event.type = .paymentSucceeded → c₁.holds = true →
      s₁.statusOf p = s.statusOf p → Granted c.event.id s.store s₁.store → Call.Moves p s c c₁ s₁
  /-- The call closes the payment. -/
  | close {c₁ : Call} {status : PendingPaymentStatus} {s₁ : Tables} : c.pc.inWindow = true → c₁.pc.inWindow = false → c.event.type.terminalStatus = some status →
      (c.event.type = .paymentSucceeded → 0 < s.grants c.event.id) → Closed p status s s₁ → Call.Moves p s c c₁ s₁

theorem Unmoved.rfl : Unmoved p s s := ⟨Eq.refl _, fun _ => Eq.refl _⟩

theorem effect_knows (event : PaymentEvent) (s : Tables) : Call.Knows p s ⟨event, false, event.effect⟩ := by
  unfold PaymentEvent.effect
  rcases h : event.type.terminalStatus with _ | status
  · intro hsaw
    cases hsaw
  · exact ⟨Eq.refl _, h⟩

theorem effect_outside (event : PaymentEvent) : event.effect.inWindow = false := by
  unfold PaymentEvent.effect
  split <;> rfl

/-- Only subscriptions and credits are sold. -/
theorem kind_of_matches {event : PaymentEvent} {pending : PendingPayment} (h : eventMatchesPending event pending = true) :
    event.metadata.get "kind" = some "subscription" ∨ event.metadata.get "kind" = some "credits" := by
  by_contra hn
  obtain ⟨h₁, h₂⟩ := not_or.mp hn
  unfold eventMatchesPending at h
  dsimp only at h
  rw [if_neg h₁, if_neg h₂, Bool.and_false] at h
  cases h

theorem matched_knows {event : PaymentEvent} {pending : PendingPayment} {status : PendingPaymentStatus}
    (hm : eventMatchesPending event pending = true)
    (h : event.type.terminalStatus = some status) :
    Call.Knows p s ⟨event, true, event.matched number p status⟩ := by
  unfold PaymentEvent.matched
  by_cases ht : event.type = .paymentSucceeded
  · rw [if_pos ht]
    split
    · exact ⟨Eq.refl _, ht⟩
    · split
      · split
        · trivial
        · split
          · trivial
          · exact ⟨Eq.refl _, ht⟩
      · rename_i h₁ h₂
        rcases kind_of_matches hm with hk | hk
        · exact absurd hk h₁
        · exact absurd hk h₂
  · rw [if_neg ht]
    exact ⟨Eq.refl _, h, fun h' => absurd h' ht⟩

/-- What the next call comes to. -/
def Call.Comes (ref : String) (p : ℕ) (s : Tables) (c : Call) (saw : Bool) (r : PaymentPc × Tables) : Prop :=
  Call.Knows p r.2 ⟨c.event, saw, r.1⟩ ∧ r.2.locate ref = some p ∧ c.Moves p s ⟨c.event, saw, r.1⟩ r.2

/-- The call moves on, or throws, and that is all. -/
theorem Call.Comes.on {saw : Bool} {pc : PaymentPc} (hl : s.locate ref = some p)
    (hk : Call.Knows p s ⟨c.event, saw, pc⟩) (hin : pc.inWindow = true → c.pc.inWindow = true) (hh : c.holds = false) :
    c.Comes ref p s saw (pc, s) :=
  ⟨hk, hl, .idle Unmoved.rfl hin fun h => absurd h (by simp [hh])⟩

/-- A transaction that grants for the event. -/
theorem Call.Comes.granting {α : Type} (saw : Bool) (granted already : PaymentPc) {r : Except BillingError α × Store}
    (hl : s.locate ref = some p) (hr : Grants c.event.id s.store r)
    (hin : c.pc.inWindow = true) (ht : c.event.type = .paymentSucceeded) (hh : c.holds = false)
    (hok : (Call.mk c.event saw granted).holds = true)
    (hg : ∀ s' : Tables, 0 < s'.grants c.event.id → Call.Knows p s' ⟨c.event, saw, granted⟩)
    (ha : ∀ s' : Tables, 0 < s'.grants c.event.id → Call.Knows p s' ⟨c.event, saw, already⟩) :
    c.Comes ref p s saw (s.afterGrant granted already r) := by
  have hidle : ∀ pc', c.Moves p s ⟨c.event, saw, pc'⟩ s := fun pc' =>
    .idle Unmoved.rfl (fun _ => hin) fun h => absurd h (by simp [hh])
  unfold Tables.afterGrant
  split
  · refine ⟨hg _ ?_, hl, .grant hin ht hok rfl hr⟩
    show 0 < Store.grants _ _
    rw [hr.2, if_pos rfl]
    exact Nat.succ_pos _
  · obtain ⟨rfl, hpos⟩ := hr
    exact ⟨ha _ hpos, hl, hidle already⟩
  · rename_i e store hne
    obtain rfl : store = s.store := by
      unfold Grants at hr
      split at hr
      · rename_i heq
        cases heq
      · rename_i heq
        cases heq
        exact absurd rfl (hne _)
      · rename_i heq
        cases heq
        exact hr
    exact ⟨trivial, hl, hidle _⟩

/-- **The next call of a delivery**, said once: what it comes to, and what the call knows afterwards. -/
theorem payment_step (hk : c.Knows p s) (ha : c.About ref ids) (hl : s.locate ref = some p) :
    c.Comes ref p s
      ((match c.pc with
        | .read _ => (s.pendingId c.event.providerReference).isSome
        | _ => false) || c.sawPending)
      (PaymentPc.step plans number c.event clock c.pc s) := by
  obtain ⟨event, saw, pc⟩ := c
  obtain ⟨href, -⟩ := ha
  have hout : event.effect.inWindow = true → False := fun h => by
    rw [effect_outside] at h
    cases h
  cases pc with
  | insert =>
    obtain rfl : saw = false := hk
    unfold PaymentPc.step
    dsimp only
    rcases s.store.eventRow event.id with _ | row
    · exact ⟨effect_knows event _, hl, .idle ⟨rfl, fun _ => rfl⟩ (fun h => (hout h).elim) fun h => by cases h⟩
    · exact Call.Comes.on hl rfl (fun h => by cases h) rfl
  | lookup =>
    obtain rfl : saw = false := hk
    unfold PaymentPc.step
    dsimp only
    split
    · exact Call.Comes.on hl (fun h => by cases h) (fun h => by cases h) rfl
    · exact Call.Comes.on hl (effect_knows event s) (fun h => (hout h).elim) rfl
  | read status =>
    obtain ⟨rfl, hstatus⟩ := hk
    have hsaw : (s.pendingId event.providerReference).isSome = decide (s.statusOf p = some .PENDING) := by
      rw [pendingId_eq (href ▸ hl)]
      split <;> simp [*]
    have hfind : s.findPendingPayment event.providerReference = (s.payments[p]?).map fun pending => (p, pending) := by
      unfold Tables.findPendingPayment
      rw [show s.locate event.providerReference = some p from href ▸ hl, Option.bind_some]
    unfold PaymentPc.step
    dsimp only
    rw [hsaw, hfind]
    rcases hp : s.payments[p]? with _ | pending
    · exact Call.Comes.on hl trivial (fun h => by cases h) rfl
    · have hst : s.statusOf p = some pending.status := by
        unfold Tables.statusOf
        rw [hp]
        rfl
      by_cases hpend : pending.status = .PENDING
      · have henter : s.statusOf p = some .PENDING := hst.trans (congrArg some hpend)
        simp only [Option.map_some, hpend, henter, ne_eq, not_true_eq_false, if_false, decide_true, Bool.true_or]
        split
        · rename_i hm
          exact ⟨matched_knows hm hstatus, hl, .enter rfl henter⟩
        · exact ⟨trivial, hl, .enter rfl henter⟩
      · have hne : s.statusOf p ≠ some .PENDING := fun h => hpend (Option.some.inj (hst.symm.trans h))
        simp only [Option.map_some, ne_eq, hpend, not_false_eq_true, if_true, hne, decide_false, Bool.or_false]
        exact Call.Comes.on hl (fun h => by cases h) (fun h => by cases h) rfl
  | loadPlan id =>
    obtain ⟨rfl, ht⟩ := hk
    unfold PaymentPc.step
    dsimp only
    split
    · exact Call.Comes.on hl trivial (fun h => by cases h) rfl
    · exact Call.Comes.on hl ⟨rfl, ht⟩ (fun _ => rfl) rfl
  | subscribe id plan now =>
    obtain ⟨rfl, ht⟩ := hk
    exact Call.Comes.granting saw (.receipt id) (.reload id) hl
      (subscribe_grants ⟨(event.metadata.get "planId").getD "", none, none, some event.id, now⟩ plan clock rfl s.store)
      rfl ht rfl (decide_eq_true ht) (fun _ hpos => ⟨rfl, ht, hpos⟩) (fun _ hpos => ⟨rfl, ht, hpos⟩)
  | reload id =>
    obtain ⟨rfl, ht, hpos⟩ := hk
    unfold PaymentPc.step
    dsimp only
    split
    · exact Call.Comes.on hl trivial (fun h => by cases h) rfl
    · exact Call.Comes.on hl ⟨rfl, ht, hpos⟩ (fun _ => rfl) rfl
  | entitle id credits =>
    obtain ⟨rfl, ht⟩ := hk
    have hthrew : ∀ e, Call.Comes ref id s ⟨event, saw, .entitle id credits⟩ saw (.threw e, s) := fun e =>
      Call.Comes.on hl trivial (fun h => by cases h) rfl
    unfold PaymentPc.step
    dsimp only
    split
    · exact Call.Comes.on hl ⟨rfl, ht⟩ (fun _ => rfl) rfl
    · split
      · split
        · exact hthrew _
        · split
          · exact Call.Comes.on hl ⟨rfl, ht⟩ (fun _ => rfl) rfl
          · exact hthrew _
      · exact Call.Comes.on hl ⟨rfl, ht⟩ (fun _ => rfl) rfl
  | freePlan id credits =>
    obtain ⟨rfl, ht⟩ := hk
    unfold PaymentPc.step
    dsimp only
    split
    · exact Call.Comes.on hl trivial (fun h => by cases h) rfl
    · split
      · exact Call.Comes.on hl ⟨rfl, ht⟩ (fun _ => rfl) rfl
      · exact Call.Comes.on hl trivial (fun h => by cases h) rfl
  | purchase id credits =>
    obtain ⟨rfl, ht⟩ := hk
    exact Call.Comes.granting saw (.receipt id) (.receipt id) hl (purchase_grants credits event.id clock s.store)
      rfl ht rfl (decide_eq_true ht) (fun _ hpos => ⟨rfl, ht, hpos⟩) (fun _ hpos => ⟨rfl, ht, hpos⟩)
  | receipt id =>
    obtain ⟨rfl, ht, hpos⟩ := hk
    have hstore : (s.createReceiptForPaymentEvent event).store = s.store := by
      unfold Tables.createReceiptForPaymentEvent
      split <;> rfl
    have hpay : (s.createReceiptForPaymentEvent event).payments = s.payments := by
      unfold Tables.createReceiptForPaymentEvent
      split <;> rfl
    have hgrants : ∀ e, (s.createReceiptForPaymentEvent event).grants e = s.grants e := fun e => by
      unfold Tables.grants
      rw [hstore]
    show Call.Comes ref id s ⟨event, saw, .receipt id⟩ saw (.transition id .SUCCEEDED, s.createReceiptForPaymentEvent event)
    refine ⟨⟨rfl, congrArg _ ht, fun _ => hpos.trans_eq (hgrants _).symm⟩, ?_,
      .idle ⟨?_, hgrants⟩ (fun _ => rfl) fun _ => Or.inl (decide_eq_true ht)⟩
    · unfold Tables.locate
      rw [hpay]
      exact hl
    · unfold Tables.statusOf
      rw [hpay]
  | transition id status =>
    obtain ⟨rfl, hstatus, hpos⟩ := hk
    have hgrants : ∀ e, (s.transitionPendingPayment id status).2.grants e = s.grants e := fun e => by
      unfold Tables.grants
      rw [transition_store]
    have hto := transition_status s id status id
    show Call.Comes ref id s ⟨event, saw, .transition id status⟩ saw (.finalize, (s.transitionPendingPayment id status).2)
    refine ⟨fun _ => ⟨?_, fun ht => (hpos ht).trans_eq (hgrants _).symm⟩, (transition_locate s id status ref).trans hl, ?_⟩
    · rw [hto]
      split
      · exact fun h => terminalStatus_ne hstatus (Option.some.inj h)
      · rename_i hn
        exact fun h => hn ⟨rfl, h⟩
    · by_cases hpend : s.statusOf id = some .PENDING
      · rw [if_pos ⟨rfl, hpend⟩] at hto
        exact .close rfl rfl hstatus hpos ⟨hpend, hto, hgrants⟩
      · rw [if_neg fun h => hpend h.2] at hto
        exact .idle ⟨hto, hgrants⟩ (fun _ => rfl) fun _ => Or.inr hpend
  | finalize =>
    unfold PaymentPc.step
    dsimp only
    split
    · exact Call.Comes.on hl hk (fun h => by cases h) rfl
    · split
      · exact ⟨hk, hl, .idle ⟨rfl, fun _ => rfl⟩ (fun h => by cases h) fun h => by cases h⟩
      · exact Call.Comes.on hl hk (fun h => by cases h) rfl
  | returned applied => exact Call.Comes.on hl hk (fun h => by cases h) rfl
  | threw e => exact Call.Comes.on hl trivial (fun h => by cases h) rfl

theorem call_step (plans : String → Option Plan) (number : String → Option ℤ) (clock : ℤ) (hk : c.Knows p s)
    (ha : c.About ref ids) (hl : s.locate ref = some p) :
    ∃ c' s', (Task.call c).step plans number clock s = (.call c', s') ∧ c'.event = c.event ∧ c'.Knows p s' ∧
      s'.locate ref = some p ∧ c.Moves p s c' s' :=
  ⟨_, _, Eq.refl _, Eq.refl _, payment_step hk ha hl⟩

/-- **The next call of a sweep**, said once. -/
theorem expiry_step (input : SweepInput) (pc : SweepPc) (hl : s.locate ref = some p) :
    (SweepPc.step input pc s).2.locate ref = some p ∧
      (Unmoved p s (SweepPc.step input pc s).2 ∨
        (∃ rest n, pc = .expire (p :: rest) n) ∧ Closed p .EXPIRED s (SweepPc.step input pc s).2) := by
  cases pc with
  | read => exact ⟨hl, Or.inl Unmoved.rfl⟩
  | returned n => exact ⟨hl, Or.inl Unmoved.rfl⟩
  | expire candidates n =>
    cases candidates with
    | nil => exact ⟨hl, Or.inl Unmoved.rfl⟩
    | cons id rest =>
      show (s.transitionPendingPayment id .EXPIRED).2.locate ref = some p ∧
        (Unmoved p s (s.transitionPendingPayment id .EXPIRED).2 ∨ _ ∧
          Closed p .EXPIRED s (s.transitionPendingPayment id .EXPIRED).2)
      have hgrants : ∀ e, (s.transitionPendingPayment id .EXPIRED).2.grants e = s.grants e := fun e => by
        unfold Tables.grants
        rw [transition_store]
      have hto := transition_status s id .EXPIRED p
      refine ⟨(transition_locate s id .EXPIRED ref).trans hl, ?_⟩
      by_cases hc : id = p ∧ s.statusOf p = some .PENDING
      · rw [if_pos hc] at hto
        obtain ⟨rfl, hpend⟩ := hc
        exact Or.inr ⟨⟨rest, n, rfl⟩, hpend, hto, hgrants⟩
      · rw [if_neg hc] at hto
        exact Or.inl ⟨hto, hgrants⟩

/-! ### In every run -/

/-- Grants stay, and so does the status that closed the payment. -/
structure Progress (ids : List String) (p : ℕ) (s s' : Tables) : Prop where
  grants : ∀ e ∈ ids, s.grants e ≤ s'.grants e
  closed : s.statusOf p ≠ some .PENDING → s'.statusOf p = s.statusOf p

theorem Unmoved.progress (h : Unmoved p s s') : Progress ids p s s' :=
  ⟨fun e _ => (h.2 e).ge, fun _ => h.1⟩

theorem Closed.progress {status : PendingPaymentStatus} (h : Closed p status s s') : Progress ids p s s' :=
  ⟨fun e _ => (h.2.2 e).ge, fun hn => absurd h.1 hn⟩

theorem Call.Moves.progress (h : c.Moves p s c' s') : Progress ids p s s' := by
  cases h with
  | idle hu _ _ => exact hu.progress
  | enter _ _ => exact Unmoved.rfl.progress
  | grant _ _ _ hst hg =>
    refine ⟨fun e _ => ?_, fun _ => hst⟩
    show s.store.grants e ≤ s'.store.grants e
    rw [hg.2]
    exact Nat.le_add_right _ _
  | close _ _ _ _ hc => exact hc.progress

/-- What a call knows stays true. -/
theorem Call.Knows.mono (h : c.Knows p s) (hid : c.event.id ∈ ids) (hp : Progress ids p s s') : c.Knows p s' := by
  have hpos : 0 < s.grants c.event.id → 0 < s'.grants c.event.id := fun h => h.trans_le (hp.grants _ hid)
  obtain ⟨event, saw, pc⟩ := c
  cases pc with
  | insert => exact h
  | lookup => exact h
  | read _ => exact h
  | loadPlan _ => exact h
  | subscribe _ _ _ => exact h
  | entitle _ _ => exact h
  | freePlan _ _ => exact h
  | purchase _ _ => exact h
  | reload _ => exact ⟨h.1, h.2.1, hpos h.2.2⟩
  | receipt _ => exact ⟨h.1, h.2.1, hpos h.2.2⟩
  | transition _ _ => exact ⟨h.1, h.2.1, fun ht => hpos (h.2.2 ht)⟩
  | finalize => exact fun hsaw => ⟨(hp.closed (h hsaw).1).symm ▸ (h hsaw).1, fun ht => hpos ((h hsaw).2 ht)⟩
  | returned _ => exact fun hsaw => ⟨(hp.closed (h hsaw).1).symm ▸ (h hsaw).1, fun ht => hpos ((h hsaw).2 ht)⟩
  | threw _ => exact h

/-- What is known of a task. -/
def Task.Fits (ref : String) (ids : List String) (p : ℕ) (s : Tables) : Task → Prop
  | .call c => c.About ref ids ∧ c.Knows p s
  | .sweep _ _ => True

theorem Task.Fits.mono {task : Task} (h : task.Fits ref ids p s) (hp : Progress ids p s s') : task.Fits ref ids p s' := by
  cases task with
  | call c => exact ⟨h.1, h.2.mono h.1.2 hp⟩
  | sweep _ _ => trivial

namespace Till

variable {ι : Type} [DecidableEq ι] {t t' : Till ι} {w : ι}

/-- The invariant of every run. -/
structure Sound (ref : String) (ids : List String) (p : ℕ) (t : Till ι) : Prop where
  located : t.tables.locate ref = some p
  once : ∀ e ∈ ids, t.tables.grants e ≤ 1
  paid : t.tables.statusOf p = some .SUCCEEDED → ∃ e ∈ ids, 0 < t.tables.grants e
  fits : Everyone (Task.Fits ref ids p t.tables) t.tasks

/-- A task moves. -/
theorem Sound.move (h : t.Sound ref ids p) {task' : Task} (hl : s'.locate ref = some p)
    (hp : Progress ids p t.tables s') (honce : ∀ e ∈ ids, s'.grants e ≤ 1)
    (hpaid : s'.statusOf p = some .SUCCEEDED → ∃ e ∈ ids, 0 < s'.grants e) (hfit : task'.Fits ref ids p s') :
    Sound ref ids p { t with tables := s', tasks := Function.update t.tasks w (some task') } where
  located := hl
  once := honce
  paid := hpaid
  fits := Everyone.update (h.fits.imp fun _ ht => ht.mono hp) w fun r hr => by
    obtain rfl : task' = r := Option.some.inj hr
    exact hfit

/-- A task moves, and nothing happens to the payment. -/
theorem Sound.unmoved (h : t.Sound ref ids p) {task' : Task} (hl : s'.locate ref = some p)
    (hu : Unmoved p t.tables s') (hfit : task'.Fits ref ids p s') :
    Sound ref ids p { t with tables := s', tasks := Function.update t.tasks w (some task') } := by
  refine h.move hl hu.progress (fun e he => ?_) (fun hs => ?_) hfit
  · rw [hu.2]
    exact h.once e he
  · obtain ⟨e, he, hpos⟩ := h.paid (hu.1.symm.trans hs)
    exact ⟨e, he, hpos.trans_eq (hu.2 e).symm⟩

theorem Sound.call (h : t.Sound ref ids p) (ha : c.About ref ids) (he : c'.event = c.event) (hl : s'.locate ref = some p)
    (hk : c'.Knows p s') (hm : c.Moves p t.tables c' s') :
    Sound ref ids p { t with tables := s', tasks := Function.update t.tasks w (some (.call c')) } := by
  have hfit : (Task.call c').Fits ref ids p s' := by
    refine ⟨?_, hk⟩
    unfold Call.About
    rw [he]
    exact ha
  cases hm with
  | idle hu _ _ => exact h.unmoved hl hu hfit
  | enter _ _ => exact h.unmoved hl Unmoved.rfl hfit
  | grant hin ht hh hst hg =>
    have hgrants : ∀ e, s'.grants e = t.tables.grants e + if e = c.event.id then 1 else 0 := hg.2
    have hzero : t.tables.grants c.event.id = 0 := hg.1
    refine h.move hl (Call.Moves.grant hin ht hh hst hg).progress (fun e hid => ?_) (fun hs => ?_) hfit
    · rw [hgrants]
      split
      · rename_i heq
        rw [heq, hzero]
      · exact h.once e hid
    · exact ⟨c.event.id, ha.2, by rw [hgrants, if_pos rfl]; exact Nat.succ_pos _⟩
  | close hin hout hstatus hpos hc =>
    refine h.move hl hc.progress (fun e hid => ?_) (fun hs => ?_) hfit
    · rw [hc.2.2]
      exact h.once e hid
    · refine ⟨c.event.id, ha.2, (hpos ?_).trans_eq (hc.2.2 _).symm⟩
      rw [hc.2.1] at hs
      obtain rfl := Option.some.inj hs
      exact succeeded_of_status hstatus

/-- Something happens elsewhere. -/
theorem elsewhere_locate (opened : List PendingPayment) (store : Store) (hl : s.locate ref = some p) :
    Tables.locate ⟨store, s.payments ++ opened, s.receipts⟩ ref = some p := by
  unfold Tables.locate at hl ⊢
  rw [List.findIdx?_append, hl]
  rfl

theorem elsewhere_status (opened : List PendingPayment) (store : Store) (hl : s.locate ref = some p) :
    Tables.statusOf ⟨store, s.payments ++ opened, s.receipts⟩ p = s.statusOf p := by
  have hlt : p < s.payments.length := by
    obtain ⟨h, -⟩ := List.findIdx?_eq_some_iff_getElem.mp hl
    exact h
  unfold Tables.statusOf
  dsimp only
  rw [List.getElem?_append_left hlt]

variable {a : TillAction ι}

/-- Every step keeps the invariant. -/
theorem Sound.next (h : t.Sound ref ids p) (hs : Till.Step plans number ref ids t a t') : t'.Sound ref ids p := by
  unfold Till.Step Till.next at hs
  cases a with
  | deliver w event =>
    dsimp only at hs
    split at hs
    · rename_i ha
      unfold Till.begin at hs
      split at hs
      · cases hs
      · cases hs
        exact h.unmoved h.located Unmoved.rfl ⟨ha, rfl⟩
    · cases hs
  | sweep w input =>
    dsimp only [Till.begin] at hs
    split at hs
    · cases hs
    · cases hs
      exact h.unmoved h.located Unmoved.rfl trivial
  | advance w clock =>
    obtain ⟨task, htask, rfl⟩ := Option.map_eq_some_iff.mp hs
    cases task with
    | call c =>
      obtain ⟨ha, hk⟩ := h.fits w _ htask
      obtain ⟨c', s', hstep, he, hk', hl, hm⟩ := call_step plans number clock hk ha h.located
      rw [hstep]
      exact h.call ha he hl hk' hm
    | sweep input pc =>
      obtain ⟨hl, hu | ⟨-, hc⟩⟩ := expiry_step input pc h.located
      · exact h.unmoved hl hu trivial
      · exact h.move hl hc.progress (fun e he => (hc.2.2 e).trans_le (h.once e he))
          (fun hs => by cases hc.2.1.symm.trans hs) trivial
  | leave w =>
    obtain ⟨task, htask, rfl⟩ := Option.map_eq_some_iff.mp hs
    exact ⟨h.located, h.once, h.paid, Everyone.update h.fits w fun r hr => by cases hr⟩
  | elsewhere store opened =>
    dsimp only at hs
    split at hs
    · rename_i hsame
      cases hs
      have hst := elsewhere_status opened store h.located
      have hp : Progress ids p t.tables ⟨store, t.tables.payments ++ opened, t.tables.receipts⟩ :=
        ⟨fun e he => (hsame.1 e he).ge, fun _ => hst⟩
      refine ⟨elsewhere_locate opened store h.located, fun e he => (hsame.1 e he).trans_le (h.once e he), fun hs => ?_,
        h.fits.imp fun _ ht => ht.mono hp⟩
      obtain ⟨e, he, hpos⟩ := h.paid (hst.symm.trans hs)
      exact ⟨e, he, hpos.trans_eq (hsame.1 e he).symm⟩
    · cases hs

/-! ### In a run that shares no window -/

/-- The window belongs to one event, and so does whatever was granted. -/
structure Held (ids : List String) (p : ℕ) (t : Till ι) (event : PaymentEvent) : Prop where
  window : Everyone (fun task => task.intrudes event = false) t.tasks
  pending : t.tables.statusOf p = some .PENDING → ∀ e ∈ ids, 0 < t.tables.grants e →
    e = event.id ∧ event.type = .paymentSucceeded ∧
      (event ∈ t.abandoned ∨ ∃ w c, t.tasks w = some (.call c) ∧ c.holds = true ∧ c.event = event)
  paid : t.tables.statusOf p = some .SUCCEEDED →
    event.id ∈ ids ∧ 0 < t.tables.grants event.id ∧ ∀ e ∈ ids, 0 < t.tables.grants e → e = event.id
  closed : t.tables.statusOf p ≠ some .PENDING → t.tables.statusOf p ≠ some .SUCCEEDED →
    (∀ e ∈ ids, t.tables.grants e = 0) ∧
      (event.type = .paymentSucceeded → Everyone (fun task => task.inWindow = false) t.tasks)

variable {event : PaymentEvent}

theorem inWindow_of_holds (h : c.holds = true) : c.pc.inWindow = true := by
  obtain ⟨event, saw, pc⟩ := c
  cases pc <;> first | rfl | cases h

omit [DecidableEq ι] in
/-- A call in the window is for the event that holds it. -/
theorem Held.event_of_window (h : t.Held ids p event) (hc : t.tasks w = some (.call c)) (hin : c.pc.inWindow = true) :
    c.event = event := by
  have := h.window w _ hc
  simpa [Task.intrudes, hin] using this

/-- A worker begins, moves on or leaves, and nothing happens to the payment. -/
theorem Held.idle (h : t.Held ids p event) {next : Option Task} {abandoned : List PaymentEvent}
    (hst : s'.statusOf p = t.tables.statusOf p) (hg : ∀ e ∈ ids, s'.grants e = t.tables.grants e)
    (habd : ∀ e ∈ t.abandoned, e ∈ abandoned)
    (hin : ∀ c', next = some (.call c') → c'.pc.inWindow = true →
      ∃ c, t.tasks w = some (.call c) ∧ c.pc.inWindow = true ∧ c'.event = c.event)
    (hold : ∀ c, t.tasks w = some (.call c) → c.holds = true → t.tables.statusOf p = some .PENDING →
      (∃ c', next = some (.call c') ∧ c'.holds = true ∧ c'.event = c.event) ∨ c.event ∈ abandoned) :
    Held ids p ⟨s', Function.update t.tasks w next, abandoned⟩ event := by
  refine ⟨Everyone.update h.window w fun task ht => ?_, fun hp e he hpos => ?_, fun hp => ?_, fun hp hp' => ?_⟩
  · cases task with
    | sweep _ _ => rfl
    | call c' =>
      by_cases hw : c'.pc.inWindow = true
      · obtain ⟨c, hc, hw', he⟩ := hin c' ht hw
        simp [Task.intrudes, he, h.event_of_window hc hw']
      · simp [Task.intrudes, hw]
  · have hp' := hst.symm.trans hp
    obtain ⟨h₁, h₂, h₃⟩ := h.pending hp' e he (hpos.trans_eq (hg e he))
    refine ⟨h₁, h₂, ?_⟩
    rcases h₃ with h₃ | ⟨v, c, hc, hh, hce⟩
    · exact Or.inl (habd _ h₃)
    · by_cases hv : v = w
      · subst hv
        rcases hold c hc hh hp' with ⟨c', hc', hh', hce'⟩ | ha
        · exact Or.inr ⟨v, c', (Function.update_self v next t.tasks).trans hc', hh', hce'.trans hce⟩
        · exact Or.inl (hce ▸ ha)
      · exact Or.inr ⟨v, c, (Function.update_of_ne hv next t.tasks).trans hc, hh, hce⟩
  · obtain ⟨h₁, h₂, h₃⟩ := h.paid (hst.symm.trans hp)
    exact ⟨h₁, h₂.trans_eq (hg _ h₁).symm, fun e he hpos => h₃ e he (hpos.trans_eq (hg e he))⟩
  · obtain ⟨h₁, h₂⟩ := h.closed (hst ▸ hp) (hst ▸ hp')
    refine ⟨fun e he => (hg e he).trans (h₁ e he), fun ht => Everyone.update (h₂ ht) w fun task hn => ?_⟩
    cases task with
    | sweep _ _ => rfl
    | call c' =>
      by_contra hw
      obtain ⟨c, hc, hw', -⟩ := hin c' hn (by simpa [Task.inWindow] using hw)
      cases hw'.symm.trans (h₂ ht w _ hc)

/-- A call finds the payment pending, and nobody else is in the window. -/
theorem Held.enter (h : t.Held ids p event) (hc : t.tasks w = some (.call c)) (hh : c.holds = false)
    (hst : t.tables.statusOf p = some .PENDING) (he : c'.event = c.event)
    (halone : ∀ j, (t.tasks j).any (·.intrudes c.event) = false) (habd : ∀ e ∈ t.abandoned, e = c.event) :
    Held ids p { t with tasks := Function.update t.tasks w (some (.call c')) } c.event := by
  refine ⟨Everyone.update (fun j task hj => ?_) w fun task ht => ?_, fun _ e hid hpos => ?_,
    fun hp => ?_, fun hp => absurd hst hp⟩
  · have := halone j
    rw [hj] at this
    exact this
  · obtain rfl : Task.call c' = task := Option.some.inj ht
    simp [Task.intrudes, he]
  · obtain ⟨h₁, h₂, h₃⟩ := h.pending hst e hid hpos
    rcases h₃ with h₃ | ⟨v, d, hd, hdh, hde⟩
    · obtain rfl := habd _ h₃
      exact ⟨h₁, h₂, Or.inl h₃⟩
    · have hdc : d.event = c.event := by
        have := halone v
        rw [hd] at this
        simpa [Task.intrudes, inWindow_of_holds hdh] using this
      have hvw : v ≠ w := by
        rintro rfl
        rw [hc] at hd
        cases hd
        rw [hh] at hdh
        cases hdh
      rw [hde] at hdc
      subst hdc
      exact ⟨h₁, h₂, Or.inr ⟨v, d, (Function.update_of_ne hvw _ t.tasks).trans hd, hdh, hde⟩⟩
  · rw [hst] at hp
    cases hp

/-- The call in the window grants. -/
theorem Held.grant (h : t.Held ids p event) (hc : t.tasks w = some (.call c)) (hin : c.pc.inWindow = true)
    (ht : c.event.type = .paymentSucceeded) (he : c'.event = c.event) (hh : c'.holds = true)
    (hst : s'.statusOf p = t.tables.statusOf p) (hg : Granted c.event.id t.tables.store s'.store) :
    Held ids p { t with tables := s', tasks := Function.update t.tasks w (some (.call c')) } event := by
  obtain rfl := h.event_of_window hc hin
  have hzero : t.tables.grants c.event.id = 0 := hg.1
  refine ⟨Everyone.update h.window w fun task hn => ?_, fun hp e hid hpos => ⟨?_, ht, Or.inr ⟨w, c', by simp, hh, he⟩⟩,
    fun hp => ?_, fun hp hp' => ?_⟩
  · obtain rfl : Task.call c' = task := Option.some.inj hn
    simp [Task.intrudes, he]
  · by_contra hne
    have hpos' : 0 < t.tables.grants e := by
      have : s'.grants e = t.tables.grants e + if e = c.event.id then 1 else 0 := hg.2 e
      rw [if_neg hne, Nat.add_zero] at this
      exact hpos.trans_eq this
    exact hne (h.pending (hst.symm.trans hp) e hid hpos').1
  · have := (h.paid (hst.symm.trans hp)).2.1
    omega
  · cases hin.symm.trans ((h.closed (hst ▸ hp) (hst ▸ hp')).2 ht w _ hc)

/-- The call in the window closes the payment. -/
theorem Held.close (h : t.Held ids p event) {status : PendingPaymentStatus} (hc : t.tasks w = some (.call c))
    (hid : c.event.id ∈ ids) (hin : c.pc.inWindow = true) (hout : c'.pc.inWindow = false)
    (hstatus : c.event.type.terminalStatus = some status)
    (hpos : c.event.type = .paymentSucceeded → 0 < t.tables.grants c.event.id) (hcl : Closed p status t.tables s') :
    Held ids p { t with tables := s', tasks := Function.update t.tasks w (some (.call c')) } event := by
  obtain rfl := h.event_of_window hc hin
  obtain ⟨hpend, hto, hg⟩ := hcl
  have hold := h.pending hpend
  refine ⟨Everyone.update h.window w fun task hn => ?_, fun hp => ?_, fun hp => ?_, fun _ hp' => ?_⟩
  · obtain rfl : Task.call c' = task := Option.some.inj hn
    simp [Task.intrudes, hout]
  · exact absurd (Option.some.inj (hto.symm.trans hp)) (terminalStatus_ne hstatus)
  · obtain rfl := Option.some.inj (hto.symm.trans hp)
    exact ⟨hid, (hpos (succeeded_of_status hstatus)).trans_eq (hg _).symm,
      fun e he hpos => (hold e he (hpos.trans_eq (hg e))).1⟩
  · have hne : c.event.type ≠ .paymentSucceeded := fun ht => by
      rw [ht] at hstatus
      cases hstatus
      exact hp' hto
    refine ⟨fun e he => ?_, fun ht => absurd ht hne⟩
    by_contra hn
    exact hne (hold e he (Nat.pos_of_ne_zero fun h0 => hn ((hg e).trans h0))).2.1

/-- A sweep closes the payment, and nobody is in the window. -/
theorem Held.expire (h : t.Held ids p event) {task' : Task} (hcl : Closed p .EXPIRED t.tables s')
    (hout : task'.inWindow = false) (halone : ∀ j, (t.tasks j).any (·.inWindow) = false) (habd : t.abandoned = []) :
    Held ids p { t with tables := s', tasks := Function.update t.tasks w (some task') } event := by
  obtain ⟨hpend, hto, hg⟩ := hcl
  refine ⟨Everyone.update h.window w fun task hn => ?_, fun hp => ?_, fun hp => ?_, fun _ _ => ⟨fun e he => ?_, fun _ => ?_⟩⟩
  · obtain rfl : task' = task := Option.some.inj hn
    cases task' with
    | sweep _ _ => rfl
    | call c' => simp [Task.intrudes, show c'.pc.inWindow = false from hout]
  · cases hto.symm.trans hp
  · cases hto.symm.trans hp
  · by_contra hn
    obtain ⟨-, -, h₃ | ⟨v, d, hd, hdh, -⟩⟩ := h.pending hpend e he (Nat.pos_of_ne_zero fun h0 => hn ((hg e).trans h0))
    · rw [habd] at h₃
      cases h₃
    · have := halone v
      rw [hd] at this
      simp [Task.inWindow, inWindow_of_holds hdh] at this
  · refine Everyone.update (fun j task hj => ?_) w fun task hn => ?_
    · have := halone j
      rw [hj] at this
      exact this
    · obtain rfl : task' = task := Option.some.inj hn
      exact hout

/-- The next call of a worker, under the condition, keeps the window to one event. -/
theorem Held.advance [Fintype ι] (h : t.Held ids p event) (hsound : t.Sound ref ids p) {task : Task}
    (htask : t.tasks w = some task) (halone : t.alone ref (.advance w clock) = true) :
    ∃ event', Held ids p
      { t with
        tables := (task.step plans number clock t.tables).2
        tasks := Function.update t.tasks w (some (task.step plans number clock t.tables).1) } event' := by
  unfold Till.alone at halone
  dsimp only at halone
  rw [htask] at halone
  cases task with
  | call c =>
    obtain ⟨ha, hk⟩ := hsound.fits w _ htask
    obtain ⟨c', s', hstep, he, -, -, hm⟩ := call_step plans number clock hk ha hsound.located
    rw [hstep]
    cases hm with
    | idle hu hin hhold =>
      refine ⟨event, h.idle hu.1 (fun e _ => hu.2 e) (fun _ he => he) (fun d hd hdw => ?_) fun d hd hdh hp => Or.inl ?_⟩
      · cases hd
        exact ⟨c, htask, hin hdw, he⟩
      · obtain rfl : c = d := by
          rw [htask] at hd
          cases hd
          rfl
        exact ⟨c', rfl, (hhold hdh).resolve_right fun hn => hn hp, he⟩
    | enter hpc hst =>
      obtain ⟨ev, saw, pc⟩ := c
      obtain rfl : pc = _ := hpc
      simp only [pendingId_eq hsound.located, hst, if_true, reduceCtorEq, decide_false, Bool.false_or,
        Bool.and_eq_true, decide_eq_true_eq, List.all_eq_true] at halone
      exact ⟨ev, h.enter htask rfl hst he halone.1 halone.2⟩
    | grant hin ht hh hst hg => exact ⟨event, h.grant htask hin ht he hh hst hg⟩
    | close hin hout hstatus hpos hc => exact ⟨event, h.close htask ha.2 hin hout hstatus hpos hc⟩
  | sweep input pc =>
    obtain ⟨hl, hu | ⟨⟨rest, n, rfl⟩, hc⟩⟩ := expiry_step input pc hsound.located
    · exact ⟨event, h.idle hu.1 (fun e _ => hu.2 e) (fun _ he => he) (fun c' hc' => by cases hc')
        fun c hc => by rw [htask] at hc; cases hc⟩
    · simp only [pendingId_eq hsound.located, hc.1, if_true, ne_eq, not_true_eq_false, decide_false, Bool.false_or,
        Bool.and_eq_true, decide_eq_true_eq] at halone
      exact ⟨event, h.expire hc rfl halone.1 halone.2⟩

/-- Every step under the condition keeps the window to one event. -/
theorem Held.next [Fintype ι] (h : ∃ event, t.Held ids p event) (hsound : t.Sound ref ids p)
    (halone : t.alone ref a = true) (hs : Till.Step plans number ref ids t a t') : ∃ event, t'.Held ids p event := by
  obtain ⟨event, h⟩ := h
  unfold Till.Step Till.next at hs
  cases a with
  | deliver w ev =>
    dsimp only [Till.begin] at hs
    split at hs
    · split at hs
      · cases hs
      · rename_i hw
        cases hs
        refine ⟨event, h.idle rfl (fun _ _ => rfl) (fun _ he => he) (fun c' hc' hin => ?_) fun c hc => ?_⟩
        · cases hc'
          cases hin
        · rw [hw] at hc
          cases hc
    · cases hs
  | sweep w input =>
    dsimp only [Till.begin] at hs
    split at hs
    · cases hs
    · rename_i hw
      cases hs
      refine ⟨event, h.idle rfl (fun _ _ => rfl) (fun _ he => he) (fun c' hc' => by cases hc') fun c hc => ?_⟩
      rw [hw] at hc
      cases hc
  | advance w clock =>
    obtain ⟨task, htask, rfl⟩ := Option.map_eq_some_iff.mp hs
    exact h.advance hsound htask halone
  | leave w =>
    obtain ⟨task, htask, rfl⟩ := Option.map_eq_some_iff.mp hs
    refine ⟨event, h.idle rfl (fun _ _ => rfl) (fun e he => ?_) (fun c' hc' => by cases hc') fun c hc hh _ => Or.inr ?_⟩
    · cases task with
      | sweep _ _ => exact he
      | call c =>
        dsimp only
        split
        · exact List.mem_append_left _ he
        · exact he
    · rw [htask] at hc
      cases hc
      simp [hh]
  | elsewhere store opened =>
    dsimp only at hs
    split at hs
    · rename_i hsame
      cases hs
      have hst := elsewhere_status opened store hsound.located
      refine ⟨event, h.window, fun hp e he hpos => h.pending (hst.symm.trans hp) e he (hpos.trans_eq (hsame.1 e he)),
        fun hp => ?_, fun hp hp' => ?_⟩
      · obtain ⟨h₁, h₂, h₃⟩ := h.paid (hst.symm.trans hp)
        exact ⟨h₁, h₂.trans_eq (hsame.1 _ h₁).symm, fun e he hpos => h₃ e he (hpos.trans_eq (hsame.1 e he))⟩
      · obtain ⟨h₁, h₂⟩ := h.closed (hst ▸ hp) (hst ▸ hp')
        exact ⟨fun e he => (hsame.1 e he).trans (h₁ e he), h₂⟩
    · cases hs

/-- Every step keeps the grants, and the status that closed the payment. -/
theorem Sound.progress (h : t.Sound ref ids p) (hs : Till.Step plans number ref ids t a t') :
    Progress ids p t.tables t'.tables := by
  unfold Till.Step Till.next at hs
  cases a with
  | deliver w ev =>
    dsimp only [Till.begin] at hs
    split at hs
    · split at hs
      · cases hs
      · cases hs
        exact Unmoved.rfl.progress
    · cases hs
  | sweep w input =>
    dsimp only [Till.begin] at hs
    split at hs
    · cases hs
    · cases hs
      exact Unmoved.rfl.progress
  | advance w clock =>
    obtain ⟨task, htask, rfl⟩ := Option.map_eq_some_iff.mp hs
    cases task with
    | call c =>
      obtain ⟨ha, hk⟩ := h.fits w _ htask
      obtain ⟨c', s', hstep, -, -, -, hm⟩ := call_step plans number clock hk ha h.located
      rw [hstep]
      exact hm.progress
    | sweep input pc =>
      obtain ⟨-, hu | ⟨-, hc⟩⟩ := expiry_step input pc h.located
      · exact hu.progress
      · exact hc.progress
  | leave w =>
    obtain ⟨task, -, rfl⟩ := Option.map_eq_some_iff.mp hs
    exact Unmoved.rfl.progress
  | elsewhere store opened =>
    dsimp only at hs
    split at hs
    · rename_i hsame
      cases hs
      exact ⟨fun e he => (hsame.1 e he).ge, fun _ => elsewhere_status opened store h.located⟩
    · cases hs

omit [DecidableEq ι] in
theorem Sound.opening (h : s.Awaits ref ids p) : (Till.opening s : Till ι).Sound ref ids p :=
  ⟨h.located, fun e he => by rw [show (Till.opening s : Till ι).tables.grants e = 0 from h.fresh e he]; exact Nat.zero_le 1,
    fun hs => absurd (h.pending.symm.trans hs) (by decide), Everyone.idle _⟩

omit [DecidableEq ι] in
theorem Held.opening (h : s.Awaits ref ids p) (event : PaymentEvent) : (Till.opening s : Till ι).Held ids p event :=
  ⟨Everyone.idle _, fun _ e he hpos => absurd (h.fresh e he) hpos.ne', 
    fun hs => absurd (h.pending.symm.trans hs) (by decide), fun hn => absurd h.pending hn⟩

theorem Sound.reaches (h : t.Sound ref ids p) (hr : Reaches (Till.Step plans number ref ids) t t') : t'.Sound ref ids p :=
  hr.inv h fun _ _ _ hs hstep => hs.next hstep

/-- A payment that was closed stays as it was closed. -/
theorem Sound.stays (h : t.Sound ref ids p) (hr : Reaches (Till.Step plans number ref ids) t t')
    (hn : t.tables.statusOf p ≠ some .PENDING) : t'.tables.statusOf p = t.tables.statusOf p := by
  have := hr.inv (I := fun u => u.Sound ref ids p ∧ u.tables.statusOf p = t.tables.statusOf p) ⟨h, rfl⟩
    fun u _ u' hu hstep => ⟨hu.1.next hstep, ((hu.1.progress hstep).closed (hu.2 ▸ hn)).trans hu.2⟩
  exact this.2

end Till

/-! ### One grant -/

/-- The grants for a payment: for any of the events about it. -/
def Tables.purchases (s : Tables) (ids : List String) : ℕ :=
  s.store.ledger.transactions.countP fun t => t.billingEventId.any (· ∈ ids)

/-- If only one of the events was granted for, its grants are all. -/
theorem purchases_le (hone : ∀ e ∈ ids, s.grants e ≤ 1)
    (hsame : ∀ e ∈ ids, ∀ e' ∈ ids, 0 < s.grants e → 0 < s.grants e' → e = e') : s.purchases ids ≤ 1 := by
  by_cases h : ∃ e ∈ ids, 0 < s.grants e
  · obtain ⟨e, he, hpos⟩ := h
    refine le_trans (List.countP_mono_left fun t ht hany => ?_) (hone e he)
    obtain ⟨e', hb, he'⟩ := Option.any_eq_true _ _ |>.mp hany
    have hpos' : 0 < s.grants e' := List.countP_pos_iff.mpr ⟨t, ht, by simpa using hb⟩
    obtain rfl := hsame e he e' (by simpa using he') hpos hpos'
    simpa using hb
  · refine le_of_eq_of_le (List.countP_eq_zero.mpr fun t ht hany => h ?_) (Nat.zero_le 1)
    obtain ⟨e, hb, he⟩ := Option.any_eq_true _ _ |>.mp hany
    exact ⟨e, by simpa using he, List.countP_pos_iff.mpr ⟨t, ht, by simpa using hb⟩⟩

/-- A delivery of a success has returned, after it had found the payment pending. -/
def Till.Applied {ι : Type} (t : Till ι) (w : ι) (c : Call) : Prop :=
  t.tasks w = some (.call c) ∧ (∃ applied, c.pc = .returned applied) ∧ c.event.type = .paymentSucceeded ∧
    c.sawPending = true

/-- **One grant for each payment.** In every run an event grants at most once, a payment that says
`SUCCEEDED` was granted, a payment that was closed stays as it was closed, and a success that was
applied to the pending payment was granted. If the window is never shared, there is one grant at
most in all, and the payment is `SUCCEEDED` once a success was applied to it; and when no call is in
the window and none died there after its grant, it is `SUCCEEDED` exactly if it was granted. -/
theorem one_grant_per_payment {ι : Type} [Fintype ι] [DecidableEq ι] (plans : String → Option Plan)
    (number : String → Option ℤ) (ref : String) (ids : List String) (s₀ : Tables) (p : ℕ) (h₀ : s₀.Awaits ref ids p)
    (t : Till ι) (h : Reaches (Till.Step plans number ref ids) (Till.opening s₀) t) :
    (∀ e ∈ ids, t.tables.grants e ≤ 1) ∧
    (t.tables.statusOf p = some .SUCCEEDED → 0 < t.tables.purchases ids) ∧
    (∀ t', Reaches (Till.Step plans number ref ids) t t' → t.tables.statusOf p ≠ some .PENDING →
      t'.tables.statusOf p = t.tables.statusOf p) ∧
    (∀ w c, t.Applied w c → t.tables.grants c.event.id = 1) ∧
    (Reaches (Guarded (Till.Step plans number ref ids) fun t a _ => t.alone ref a = true) (Till.opening s₀) t →
      t.tables.purchases ids ≤ 1 ∧ (∀ w c, t.Applied w c → t.tables.statusOf p = some .SUCCEEDED) ∧
      ((∀ w, (t.tasks w).any (·.inWindow) = false) → t.abandoned = [] →
        (t.tables.statusOf p = some .SUCCEEDED ↔ 0 < t.tables.purchases ids))) := by
  have hsound : t.Sound ref ids p := (Till.Sound.opening h₀).reaches h
  have hpos : ∀ e ∈ ids, 0 < t.tables.grants e → 0 < t.tables.purchases ids := by
    intro e he hg
    refine hg.trans_le (List.countP_mono_left fun x _ hx => ?_)
    rw [decide_eq_true_eq] at hx
    rw [hx]
    simpa using he
  have hpaid : t.tables.statusOf p = some .SUCCEEDED → 0 < t.tables.purchases ids := by
    intro hs
    obtain ⟨e, he, hg⟩ := hsound.paid hs
    exact hpos e he hg
  have happlied : ∀ w c, t.Applied w c → t.tables.statusOf p ≠ some .PENDING ∧ c.event.id ∈ ids ∧
      0 < t.tables.grants c.event.id := by
    rintro w ⟨event, saw, pc⟩ ⟨hc, ⟨applied, hpc⟩, ht, hsaw⟩
    obtain rfl : pc = _ := hpc
    obtain ⟨ha, hk⟩ := hsound.fits w _ hc
    obtain ⟨h₁, h₂⟩ := hk hsaw
    exact ⟨h₁, ha.2, h₂ ht⟩
  refine ⟨hsound.once, hpaid, fun t' hr hn => hsound.stays hr hn, fun w c hc => ?_, fun hr => ?_⟩
  · obtain ⟨-, hid, hg⟩ := happlied w c hc
    exact le_antisymm (hsound.once _ hid) hg
  · have hheld := hr.inv (I := fun u => u.Sound ref ids p ∧ ∃ event, u.Held ids p event)
      ⟨Till.Sound.opening h₀, ⟨"", .refundSucceeded, "", "", 0, []⟩, Till.Held.opening h₀ _⟩
      fun u _ u' hu hstep => ⟨hu.1.next hstep.1, Till.Held.next hu.2 hu.1 hstep.2 hstep.1⟩
    obtain ⟨-, event, hheld⟩ := hheld
    have hgrant : ∀ e ∈ ids, 0 < t.tables.grants e → e = event.id ∧
        (t.tables.statusOf p = some .PENDING ∨ t.tables.statusOf p = some .SUCCEEDED) := by
      intro e he hg
      by_cases hp : t.tables.statusOf p = some .PENDING
      · exact ⟨(hheld.pending hp e he hg).1, Or.inl hp⟩
      · by_cases hp' : t.tables.statusOf p = some .SUCCEEDED
        · exact ⟨(hheld.paid hp').2.2 e he hg, Or.inr hp'⟩
        · exact absurd ((hheld.closed hp hp').1 e he) hg.ne'
    refine ⟨purchases_le hsound.once fun e he e' he' hg hg' => ?_, fun w c hc => ?_, fun hout habd => ⟨hpaid, fun hg => ?_⟩⟩
    · rw [(hgrant e he hg).1, (hgrant e' he' hg').1]
    · obtain ⟨hn, hid, hg⟩ := happlied w c hc
      exact (hgrant _ hid hg).2.resolve_left hn
    · obtain ⟨x, hx, hany⟩ := List.countP_pos_iff.mp hg
      obtain ⟨e, hb, he⟩ := Option.any_eq_true _ _ |>.mp hany
      have hg' : 0 < t.tables.grants e := List.countP_pos_iff.mpr ⟨x, hx, by simpa using hb⟩
      have he : e ∈ ids := by simpa using he
      refine (hgrant e he hg').2.resolve_left fun hp => ?_
      obtain ⟨-, -, hin | ⟨w, c, hc, hh, -⟩⟩ := hheld.pending hp e he hg'
      · rw [habd] at hin
        cases hin
      · have := hout w
        rw [hc] at this
        cases (Till.inWindow_of_holds hh).symm.trans this

/-! ### A payment for a plan -/

/-- A user who has begun a checkout for the plan `pro`. -/
def buyer : Tables :=
  { store := ⟨⟨[], [], []⟩, none, []⟩
    payments := [⟨"user", "subscription", "order", 990000, .PENDING, [("kind", "subscription"), ("planId", "pro")], 0⟩]
    receipts := [] }

/-- The provider reports that it was paid. -/
def paid : PaymentEvent :=
  ⟨"txn", .paymentSucceeded, "order", "user", 990000, [("kind", "subscription"), ("planId", "pro")]⟩

theorem buyer_awaits : buyer.Awaits "order" ["txn"] 0 :=
  ⟨by decide, by decide, by decide⟩

/-- A delivery that comes to its end. -/
def deliveredAlone : List (TillAction (Fin 1)) := .deliver 0 paid :: List.replicate 7 (.advance 0 5)

theorem one_grant_per_payment_delivered :
    ∃ t : Till (Fin 1), t.tables.statusOf 0 = some .SUCCEEDED ∧ t.tables.purchases ["txn"] ≤ 1 ∧
      0 < t.tables.purchases ["txn"] := by
  obtain ⟨t, hrun, hst⟩ :=
    Reaches.exists_of_play (Till.next onlyPro (fun _ => none) "order" ["txn"]) (Till.alone "order") (Till.opening buyer)
      deliveredAlone (fun t => t.tables.statusOf 0 = some .SUCCEEDED) (by decide)
  have h := one_grant_per_payment onlyPro (fun _ => none) "order" ["txn"] buyer 0 buyer_awaits t hrun.of_guarded
  exact ⟨t, hst, (h.2.2.2.2 hrun).1, h.2.1 hst⟩

/-- A sweep gives up on the payment, and then the provider reports that it was paid. -/
def deliveredLate : List (TillAction (Fin 1)) :=
  [.sweep 0 ⟨10, 50⟩, .advance 0 0, .advance 0 0, .advance 0 0, .leave 0, .deliver 0 paid] ++
    List.replicate 3 (.advance 0 20)

/-- **A success that comes too late is applied without a grant.** -/
theorem applied_too_late :
    ∃ t : Till (Fin 1), Reaches (Till.Step onlyPro (fun _ => none) "order" ["txn"]) (Till.opening buyer) t ∧
      t.tasks 0 = some (.call ⟨paid, false, .returned true⟩) ∧ paid.type = .paymentSucceeded ∧
      t.tables.statusOf 0 = some .EXPIRED ∧ t.tables.purchases ["txn"] = 0 := by
  obtain ⟨t, hrun, h⟩ :=
    Reaches.exists_of_play (Till.next onlyPro (fun _ => none) "order" ["txn"]) (fun _ _ => true) (Till.opening buyer)
      deliveredLate (fun t => t.tasks 0 = some (.call ⟨paid, false, .returned true⟩) ∧ paid.type = .paymentSucceeded ∧
        t.tables.statusOf 0 = some .EXPIRED ∧ t.tables.purchases ["txn"] = 0) (by decide)
  exact ⟨t, hrun.of_guarded, h⟩

end WebAudit.Billing
