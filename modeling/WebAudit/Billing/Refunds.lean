import WebAudit.Billing.OneGrant
import WebAudit.Lib.Json

/-!
# Refunds of payments

`refundPayment` (`services/billing/refund-payment.ts`) asks the provider for the refund of a payment that
is recorded as `SUCCEEDED`, of no more than it charged. It keeps no record of the refunds it has asked for, and what it
has of the payment is the id of its order, which the provider takes for the id of a transaction.

## The model

A `Desk` is the tables and everyone at work on them: checkouts, deliveries of events, sweeps, and calls of
`refundPayment`, each one step at a time in any order. `paidBy` is the id of the event, which is that of
the transaction, that closed a payment as paid. `number text` is `Number(text)`, where that is a whole number.
-/

namespace WebAudit.Billing

open WebAudit.Lib WebAudit.Credits

/-! ### The code -/

structure RefundPaymentInput where
  providerReference : String
  amountMicros : ℚ

/-- The `code` of a `PaymobProviderError` that a request fails with. -/
inductive PaymobErrorCode where
  | authFailed
  | rateLimited
  | serverError
  | badResponse
  | timeout
  deriving DecidableEq

inductive RefundError where
  /-- `RefundNotAuthorizedError`. -/
  | notAuthorized (message : String)
  /-- `Paymob refund requires a numeric transaction reference.` -/
  | reference
  /-- `Checkout amount must be a positive whole number of piasters.` -/
  | piasters
  | request (code : PaymobErrorCode)
  deriving DecidableEq

def PendingPaymentStatus.text : PendingPaymentStatus → String
  | .PENDING => "PENDING"
  | .SUCCEEDED => "SUCCEEDED"
  | .FAILED => "FAILED"
  | .CANCELLED => "CANCELLED"
  | .EXPIRED => "EXPIRED"

/-- `Number.isSafeInteger`. -/
def isSafeInteger (x : ℚ) : Bool := x.den = 1 && x.num.natAbs ≤ maxSafeInteger

/-- `piastersFromMicros`; a piaster is 10 000 micros. -/
def piastersFromMicros (amountMicros : ℚ) : Except RefundError ℤ :=
  if isSafeInteger amountMicros = false ∨ amountMicros ≤ 0 ∨ amountMicros.num % 10000 ≠ 0 then .error .piasters
  else .ok (amountMicros.num / 10000)

/-- What `/api/acceptance/void_refund/refund` is asked. -/
structure RefundRequest where
  transactionId : ℤ
  amountCents : ℤ
  deriving DecidableEq

/-- Where a call stands. -/
inductive RefundPc where
  /-- Before the payment is read. -/
  | read
  /-- The token is asked for next, for this transaction. -/
  | token (transactionId : ℤ)
  /-- The provider has been asked. -/
  | asked
  | returned (refunded : Bool)
  | threw (e : RefundError)
  deriving DecidableEq

structure RefundCall where
  input : RefundPaymentInput
  pc : RefundPc := .read
  /-- The row that authorised it. -/
  payment : Option ℕ := none
  request : Option RefundRequest := none

/-- What a request to the provider comes back with. -/
inductive Reply where
  | failed (code : PaymobErrorCode)
  /-- For a refund, whether it says `success` or `is_refunded`. -/
  | answered (success : Bool)
  deriving DecidableEq

section Calls

variable (plans : String → Option Plan) (number : String → Option ℤ)

/-- The row by which a refund is authorised, or why it is not. -/
def Tables.authorize (s : Tables) (input : RefundPaymentInput) : Except RefundError ℕ :=
  if isSafeInteger input.amountMicros = false ∨ input.amountMicros ≤ 0 then
    .error (.notAuthorized "Refund amount must be a positive whole number of micros.")
  else
    match s.findPendingPayment input.providerReference with
    | none => .error (.notAuthorized ("No recorded payment matches provider reference " ++ input.providerReference ++ "."))
    | some (id, pending) =>
      if pending.status ≠ .SUCCEEDED then
        .error (.notAuthorized ("Payment " ++ toString id ++ " is not in a refundable state (status: " ++ pending.status.text ++ ")."))
      else if pending.amountMicros < input.amountMicros then
        .error (.notAuthorized ("Refund amount (" ++ toString input.amountMicros.num ++ ") exceeds the amount actually charged (" ++
          toString pending.amountMicros ++ ") for payment " ++ toString id ++ "."))
      else .ok id

/-- `Number(providerReference)`, where it is a positive safe integer. -/
def transactionOf (providerReference : String) : Option ℤ :=
  (number providerReference).filter fun n => 0 < n && n.natAbs ≤ maxSafeInteger

/-- The next step of `refundPayment`, and of the provider's `refund` within it. -/
def RefundCall.step (call : RefundCall) (reply : Reply) (s : Tables) : RefundCall :=
  match call.pc with
  | .read =>
    match s.authorize call.input with
    | .error e => { call with pc := .threw e }
    | .ok id =>
      match transactionOf number call.input.providerReference with
      | none => { call with pc := .threw .reference, payment := some id }
      | some transactionId => { call with pc := .token transactionId, payment := some id }
  | .token transactionId =>
    match reply with
    | .failed code => { call with pc := .threw (.request code) }
    | .answered _ =>
      match piastersFromMicros call.input.amountMicros with
      | .error e => { call with pc := .threw e }
      | .ok amountCents => { call with pc := .asked, request := some ⟨transactionId, amountCents⟩ }
  | .asked =>
    match reply with
    | .failed code => { call with pc := .threw (.request code) }
    | .answered success => { call with pc := .returned success }
  | .returned _ => call
  | .threw _ => call

/-! ### The desk -/

structure Desk where
  tables : Tables
  deliveries : List (PaymentEvent × PaymentPc)
  sweeps : List (SweepInput × SweepPc)
  refunds : List RefundCall
  /-- The event that closed a payment as paid. -/
  paidBy : ℕ → Option String

/-- No payment is recorded yet. -/
def Desk.opening (store : Store) : Desk := ⟨⟨store, [], []⟩, [], [], [], fun _ => none⟩

inductive DeskAction where
  /-- A checkout leaves its row. -/
  | checkout (payment : PendingPayment)
  /-- A verified event arrives. -/
  | deliver (event : PaymentEvent)
  | apply (delivery : ℕ) (clock : ℤ)
  | sweep (input : SweepInput)
  | expire (sweep : ℕ)
  /-- Something else happens to the user's tables. -/
  | elsewhere (store : Store) (receipts : List Receipt)
  | request (input : RefundPaymentInput)
  /-- The next step of a refund, with what a request comes back with. -/
  | turn (refund : ℕ) (reply : Reply)

/-- The checkout got as far as its row: the order was made for whole piasters, and no row has its reference. -/
def Tables.Opens (s : Tables) (payment : PendingPayment) : Bool :=
  (piastersFromMicros payment.amountMicros).toOption.isSome && payment.amountMicros ≤ int4Max && payment.status = .PENDING &&
    (s.locate payment.providerReference).isNone

/-- Who has paid, after a step of a delivery. -/
def Desk.paidAfter (d : Desk) (event : PaymentEvent) : PaymentPc → ℕ → Option String
  | .transition id .SUCCEEDED => if d.tables.statusOf id = some .PENDING then Function.update d.paidBy id (some event.id) else d.paidBy
  | _ => d.paidBy

def Desk.next (d : Desk) : DeskAction → Option Desk
  | .checkout payment =>
    if d.tables.Opens payment then some { d with tables := { d.tables with payments := d.tables.payments ++ [payment] } } else none
  | .deliver event => some { d with deliveries := d.deliveries ++ [(event, .insert)] }
  | .apply k clock =>
    (d.deliveries[k]?).map fun delivery =>
      let (pc, s) := PaymentPc.step plans number delivery.1 clock delivery.2 d.tables
      { d with tables := s, deliveries := d.deliveries.set k (delivery.1, pc), paidBy := d.paidAfter delivery.1 delivery.2 }
  | .sweep input => some { d with sweeps := d.sweeps ++ [(input, .read)] }
  | .expire k =>
    (d.sweeps[k]?).map fun sweep =>
      let (pc, s) := SweepPc.step sweep.1 sweep.2 d.tables
      { d with tables := s, sweeps := d.sweeps.set k (sweep.1, pc) }
  | .elsewhere store receipts => some { d with tables := { d.tables with store, receipts } }
  | .request input => some { d with refunds := d.refunds ++ [{ input }] }
  | .turn k reply => (d.refunds[k]?).map fun call => { d with refunds := d.refunds.set k (call.step number reply d.tables) }

def Desk.Step (d : Desk) (a : DeskAction) (d' : Desk) : Prop := d.next plans number a = some d'

end Calls

/-! ### What should hold -/

/-- The refund is not known to have failed. -/
def RefundPc.open : RefundPc → Bool
  | .token _ | .asked | .returned true => true
  | _ => false

/-- What a call has claimed of a payment. -/
def RefundCall.claimed (call : RefundCall) (id : ℕ) : ℤ :=
  if call.payment = some id ∧ call.pc.open then call.input.amountMicros.num else 0

/-- What a call was confirmed of a payment. -/
def RefundCall.confirmed (call : RefundCall) (id : ℕ) : ℤ :=
  if call.payment = some id ∧ call.pc = .returned true then call.input.amountMicros.num else 0

def Desk.claimed (d : Desk) (id : ℕ) : ℤ := (d.refunds.map (·.claimed id)).sum

def Desk.confirmed (d : Desk) (id : ℕ) : ℤ := (d.refunds.map (·.confirmed id)).sum

/-- The row of a payment that is paid, under this reference. -/
def Tables.Paid (s : Tables) (id : ℕ) (providerReference : String) : Prop :=
  ∃ row, s.payments[id]? = some row ∧ row.status = .SUCCEEDED ∧ row.providerReference = providerReference

/-- The provider was asked for the amount of the call, about a payment that is recorded as paid; and no whole number of piasters
is refused. -/
structure RefundCall.Recorded (s : Tables) (call : RefundCall) : Prop where
  payment : ∀ id, call.payment = some id → s.Paid id call.input.providerReference ∧ 0 < call.input.amountMicros ∧
    isSafeInteger call.input.amountMicros = true
  token : ∀ t, call.pc = .token t → call.payment.isSome = true
  request : ∀ r, call.request = some r → call.payment.isSome = true ∧ r.amountCents * 10000 = call.input.amountMicros.num
  piasters : call.pc = .threw .piasters → call.input.amountMicros.num % 10000 ≠ 0

/-- The transaction the provider is asked about is the one that paid. -/
structure RefundCall.Aimed (number : String → Option ℤ) (paidBy : ℕ → Option String) (call : RefundCall) : Prop where
  token : ∀ id t, call.payment = some id → call.pc = .token t → ∃ event, paidBy id = some event ∧ number event = some t
  request : ∀ id r, call.payment = some id → call.request = some r →
    ∃ event, paidBy id = some event ∧ number event = some r.transactionId

/-- No payment is refunded more than it charged. -/
def Desk.Covered (d : Desk) : Prop := ∀ id row, d.tables.payments[id]? = some row → d.confirmed id ≤ row.amountMicros

/-- The condition on a step: where a refund is about to be authorised, the refunds of the payment that are not known to have failed
leave room for it, and the transaction that paid has the number of its order. -/
def Desk.within (number : String → Option ℤ) (d : Desk) (a : DeskAction) : Bool :=
  match a with
  | .turn k _ =>
    (d.refunds[k]?).all fun call =>
      match call.pc, d.tables.authorize call.input with
      | .read, .ok id =>
        ((d.tables.payments[id]?).all fun row => decide (d.claimed id + call.input.amountMicros.num ≤ row.amountMicros)) &&
          (d.paidBy id).any fun event => (number event).isSome && transactionOf number call.input.providerReference = number event
      | _, _ => true
  | _ => true

/-! ### The rows -/

/-- Rows stay, and one that is paid stays so. -/
def Tables.Keeps (s s' : Tables) : Prop :=
  ∀ (id : ℕ) (row : PendingPayment), s.payments[id]? = some row →
    ∃ row' : PendingPayment, s'.payments[id]? = some row' ∧ row'.amountMicros = row.amountMicros ∧
      row'.providerReference = row.providerReference ∧ (row.status = .SUCCEEDED → row'.status = .SUCCEEDED)

section Rows

variable {s s' : Tables} {id : ℕ} {ref : String}

theorem Tables.Keeps.of_eq (h : s'.payments = s.payments) : s.Keeps s' := by
  intro id row hrow
  exact ⟨row, h ▸ hrow, rfl, rfl, fun h => h⟩

theorem Tables.Keeps.paid (h : s.Keeps s') (hp : s.Paid id ref) : s'.Paid id ref := by
  obtain ⟨row, hrow, hstatus, href⟩ := hp
  obtain ⟨row', hrow', -, href', hstatus'⟩ := h id row hrow
  exact ⟨row', hrow', hstatus' hstatus, href'.trans href⟩

theorem transition_keeps (s : Tables) (id : ℕ) (status : PendingPaymentStatus) : s.Keeps (s.transitionPendingPayment id status).2 := by
  intro i row hrow
  unfold Tables.transitionPendingPayment
  split
  · exact ⟨row, hrow, rfl, rfl, fun h => h⟩
  · rename_i pending hp
    split
    · rename_i hpending
      dsimp only
      by_cases hi : id = i
      · subst hi
        obtain rfl : pending = row := Option.some.inj (hp.symm.trans hrow)
        refine ⟨{ pending with status }, ?_, rfl, rfl, fun h => ?_⟩
        · rw [List.getElem?_set_self (List.getElem?_eq_some_iff.mp hrow).1]
        · rw [hpending] at h
          cases h
      · exact ⟨row, by rwa [List.getElem?_set_ne hi], rfl, rfl, fun h => h⟩
    · exact ⟨row, hrow, rfl, rfl, fun h => h⟩

theorem transition_length (s : Tables) (id : ℕ) (status : PendingPaymentStatus) :
    (s.transitionPendingPayment id status).2.payments.length = s.payments.length := by
  unfold Tables.transitionPendingPayment
  split
  · rfl
  · split
    · exact List.length_set
    · rfl

/-- Only the closing of a payment writes its row. -/
theorem step_payments (plans : String → Option Plan) (number : String → Option ℤ) (event : PaymentEvent) (clock : ℤ) (pc : PaymentPc)
    (s : Tables) (h : ∀ id status, pc ≠ .transition id status) : (PaymentPc.step plans number event clock pc s).2.payments = s.payments := by
  have hgrant {α : Type} (granted already : PaymentPc) (r : Except BillingError α × Store) :
      (s.afterGrant granted already r).2.payments = s.payments := by
    unfold Tables.afterGrant
    split <;> rfl
  cases pc with
  | transition id status => exact absurd rfl (h id status)
  | subscribe id plan now => exact hgrant _ _ _
  | purchase id credits => exact hgrant _ _ _
  | receipt id =>
    unfold PaymentPc.step Tables.createReceiptForPaymentEvent
    dsimp only
    split
    · rfl
    · rfl
  | _ =>
    unfold PaymentPc.step
    dsimp only
    repeat' split
    all_goals rfl

theorem step_keeps (plans : String → Option Plan) (number : String → Option ℤ) (event : PaymentEvent) (clock : ℤ) (pc : PaymentPc)
    (s : Tables) : s.Keeps (PaymentPc.step plans number event clock pc s).2 ∧
      (PaymentPc.step plans number event clock pc s).2.payments.length = s.payments.length := by
  by_cases h : ∃ id status, pc = .transition id status
  · obtain ⟨id, status, rfl⟩ := h
    exact ⟨transition_keeps s id status, transition_length s id status⟩
  · have hp := step_payments plans number event clock pc s fun id status heq => h ⟨id, status, heq⟩
    exact ⟨.of_eq hp, congrArg List.length hp⟩

theorem sweep_keeps (input : SweepInput) (pc : SweepPc) (s : Tables) :
    s.Keeps (SweepPc.step input pc s).2 ∧ (SweepPc.step input pc s).2.payments.length = s.payments.length := by
  unfold SweepPc.step
  split
  · exact ⟨.of_eq rfl, rfl⟩
  · exact ⟨.of_eq rfl, rfl⟩
  · exact ⟨transition_keeps s _ _, transition_length s _ _⟩
  · exact ⟨.of_eq rfl, rfl⟩

/-- What is known of a row by which a refund is authorised. -/
theorem authorize_ok {input : RefundPaymentInput} (h : s.authorize input = .ok id) :
    s.Paid id input.providerReference ∧ 0 < input.amountMicros ∧ isSafeInteger input.amountMicros = true := by
  unfold Tables.authorize at h
  split at h
  · cases h
  · rename_i hamount
    obtain ⟨hsafe, hpos⟩ := not_or.mp hamount
    split at h
    · cases h
    · rename_i id' pending hfind
      split at h
      · cases h
      · rename_i hstatus
        split at h
        · cases h
        · obtain rfl : id' = id := Except.ok.inj h
          unfold Tables.findPendingPayment at hfind
          obtain ⟨i, hi, hfind⟩ := Option.bind_eq_some_iff.mp hfind
          obtain ⟨row, hrow, heq⟩ := Option.map_eq_some_iff.mp hfind
          obtain ⟨rfl, rfl⟩ := Prod.mk.inj heq
          obtain ⟨hlt, href, -⟩ := List.findIdx?_eq_some_iff_getElem.mp hi
          obtain ⟨_, hget⟩ := List.getElem?_eq_some_iff.mp hrow
          refine ⟨⟨row, hrow, not_not.mp hstatus, ?_⟩, not_le.mp hpos, by simpa using hsafe⟩
          rw [← hget]
          exact of_decide_eq_true href

end Rows

/-! ### The steps of a call -/

theorem num_pos {x : ℚ} (h : 0 < x) : 0 < x.num := Rat.num_pos.mpr h

/-- The provider's own check refuses nothing but what is no whole number of piasters. -/
theorem piastersFromMicros_cases {x : ℚ} (hsafe : isSafeInteger x = true) (hpos : 0 < x) :
    (∃ cents, piastersFromMicros x = .ok cents ∧ cents * 10000 = x.num) ∨ (piastersFromMicros x = .error .piasters ∧ x.num % 10000 ≠ 0) := by
  unfold piastersFromMicros
  by_cases hmod : x.num % 10000 = 0
  · refine .inl ⟨x.num / 10000, ?_, Int.ediv_mul_cancel (Int.dvd_of_emod_eq_zero hmod)⟩
    rw [if_neg]
    rintro (h | h | h)
    · simp [hsafe] at h
    · exact absurd hpos (not_lt.mpr h)
    · exact h hmod
  · exact .inr ⟨if_pos (.inr (.inr hmod)), hmod⟩

/-- What the next step of a call comes to. -/
inductive RefundCall.Moves (number : String → Option ℤ) (s : Tables) (call : RefundCall) : RefundCall → Prop
  | stays : Moves number s call call
  /-- It is authorised. -/
  | authorized (id : ℕ) (t : ℤ) : call.pc = .read → s.authorize call.input = .ok id → transactionOf number call.input.providerReference = some t →
      Moves number s call { call with pc := .token t, payment := some id }
  /-- It is authorised, and names no transaction. -/
  | unnamed (id : ℕ) : call.pc = .read → s.authorize call.input = .ok id → Moves number s call { call with pc := .threw .reference, payment := some id }
  /-- The provider is asked. -/
  | asks (t cents : ℤ) : call.pc = .token t → piastersFromMicros call.input.amountMicros = .ok cents →
      Moves number s call { call with pc := .asked, request := some ⟨t, cents⟩ }
  | replied (success : Bool) : call.pc = .asked → Moves number s call { call with pc := .returned success }
  /-- The provider refuses the amount. -/
  | refused (t : ℤ) : call.pc = .token t → piastersFromMicros call.input.amountMicros = .error .piasters →
      Moves number s call { call with pc := .threw .piasters }
  | fails (e : RefundError) : e ≠ .piasters → Moves number s call { call with pc := .threw e }

theorem authorize_error {s : Tables} {input : RefundPaymentInput} {e : RefundError} (h : s.authorize input = .error e) : e ≠ .piasters := by
  unfold Tables.authorize at h
  rintro rfl
  split at h
  · cases h
  · split at h
    · cases h
    · split at h
      · cases h
      · split at h <;> cases h

theorem piastersFromMicros_error {x : ℚ} {e : RefundError} (h : piastersFromMicros x = .error e) : e = .piasters := by
  unfold piastersFromMicros at h
  split at h
  · exact (Except.error.inj h).symm
  · cases h

theorem RefundCall.step_moves (number : String → Option ℤ) (call : RefundCall) (reply : Reply) (s : Tables) :
    call.Moves number s (call.step number reply s) := by
  unfold RefundCall.step
  split
  · rename_i hpc
    split
    · rename_i e he
      exact .fails e (authorize_error he)
    · rename_i id hid
      split
      · exact .unnamed id hpc hid
      · rename_i t ht
        exact .authorized id t hpc hid ht
  · rename_i t hpc
    split
    · exact .fails _ nofun
    · split
      · rename_i e he
        obtain rfl := piastersFromMicros_error he
        exact .refused t hpc he
      · rename_i cents hcents
        exact .asks t cents hpc hcents
  · rename_i hpc
    split
    · exact .fails _ nofun
    · exact .replied _ hpc
  · exact .stays
  · exact .stays

section Moves

variable {number : String → Option ℤ} {s s' : Tables} {call call' : RefundCall} {id : ℕ} {paidBy paidBy' : ℕ → Option String}

theorem RefundCall.Recorded.keeps (h : call.Recorded s) (hs : s.Keeps s') : call.Recorded s' where
  payment := fun id hid => ⟨hs.paid (h.payment id hid).1, (h.payment id hid).2⟩
  token := h.token
  request := h.request
  piasters := h.piasters

theorem RefundCall.Recorded.moves (h : call.Recorded s) (hm : call.Moves number s call') : call'.Recorded s := by
  cases hm with
  | stays => exact h
  | authorized id t hpc ha ht =>
    exact ⟨fun i hi => Option.some.inj hi ▸ authorize_ok ha, fun _ _ => rfl, fun r hr => ⟨rfl, (h.request r hr).2⟩, nofun⟩
  | unnamed id hpc ha =>
    exact ⟨fun i hi => Option.some.inj hi ▸ authorize_ok ha, fun _ _ => rfl, fun r hr => ⟨rfl, (h.request r hr).2⟩, nofun⟩
  | asks t cents hpc hcents =>
    obtain ⟨id, hid⟩ := Option.isSome_iff_exists.mp (h.token t hpc)
    obtain ⟨-, hpos, hsafe⟩ := h.payment id hid
    refine ⟨h.payment, nofun, fun r hr => ⟨h.token t hpc, ?_⟩, nofun⟩
    obtain rfl : RefundRequest.mk t cents = r := Option.some.inj hr
    rcases piastersFromMicros_cases hsafe hpos with ⟨c, hc, heq⟩ | ⟨he, -⟩
    · rw [hcents] at hc
      exact Except.ok.inj hc ▸ heq
    · rw [hcents] at he
      cases he
  | replied success hpc => exact ⟨h.payment, nofun, h.request, nofun⟩
  | refused t hpc he =>
    obtain ⟨id, hid⟩ := Option.isSome_iff_exists.mp (h.token t hpc)
    obtain ⟨-, hpos, hsafe⟩ := h.payment id hid
    refine ⟨h.payment, nofun, h.request, fun _ => ?_⟩
    rcases piastersFromMicros_cases hsafe hpos with ⟨c, hc, -⟩ | ⟨-, hmod⟩
    · rw [he] at hc
      cases hc
    · exact hmod
  | fails e he => exact ⟨h.payment, nofun, h.request, fun hp => absurd (RefundPc.threw.inj hp) he⟩

/-- A step of a call claims nothing more, unless it is authorised in it. -/
theorem RefundCall.Moves.claimed_le (hm : call.Moves number s call') (hr : call.Recorded s) (id : ℕ) :
    call'.claimed id ≤ call.claimed id ∨
      call.pc = .read ∧ s.authorize call.input = .ok id ∧ call'.claimed id ≤ call.claimed id + call.input.amountMicros.num := by
  have hnonneg : 0 ≤ call.claimed id := by
    unfold RefundCall.claimed
    split
    · rename_i h
      exact (num_pos (hr.payment id h.1).2.1).le
    · exact le_rfl
  have hclosed {c : RefundCall} (hc : c.pc.open = false) : c.claimed id ≤ call.claimed id := by
    unfold RefundCall.claimed at hnonneg ⊢
    rw [if_neg (by simp [hc])]
    exact hnonneg
  have hsame {c : RefundCall} (hp : c.payment = call.payment) (hi : c.input = call.input) (ho : call.pc.open = true) :
      c.claimed id ≤ call.claimed id := by
    unfold RefundCall.claimed at hnonneg ⊢
    rw [hp, hi]
    by_cases hid : call.payment = some id
    · rw [if_pos ⟨hid, ho⟩] at hnonneg
      rw [if_pos (show call.payment = some id ∧ call.pc.open = true from ⟨hid, ho⟩)]
      split
      · exact le_rfl
      · exact hnonneg
    · rw [if_neg fun h => hid h.1, if_neg fun h => hid h.1]
  cases hm with
  | stays => exact .inl le_rfl
  | authorized i t hpc ha ht =>
    by_cases hi : i = id
    · subst hi
      refine .inr ⟨hpc, ha, ?_⟩
      unfold RefundCall.claimed at hnonneg ⊢
      rw [if_pos ⟨rfl, rfl⟩]
      dsimp only
      omega
    · refine .inl ?_
      unfold RefundCall.claimed at hnonneg ⊢
      rw [if_neg fun h => hi (Option.some.inj h.1)]
      exact hnonneg
  | unnamed i hpc ha => exact .inl (hclosed rfl)
  | asks t cents hpc hcents => exact .inl (hsame rfl rfl (by rw [hpc]; rfl))
  | replied success hpc => exact .inl (hsame rfl rfl (by rw [hpc]; rfl))
  | refused t hpc he => exact .inl (hclosed rfl)
  | fails e he => exact .inl (hclosed rfl)

theorem RefundCall.confirmed_le_claimed (hr : call.Recorded s) (id : ℕ) : call.confirmed id ≤ call.claimed id := by
  unfold RefundCall.confirmed RefundCall.claimed
  by_cases hid : call.payment = some id
  · have hpos := num_pos (hr.payment id hid).2.1
    by_cases hpc : call.pc = .returned true
    · rw [if_pos ⟨hid, hpc⟩, if_pos ⟨hid, by rw [hpc]; rfl⟩]
    · rw [if_neg fun h => hpc h.2]
      split
      · exact hpos.le
      · exact le_rfl
  · rw [if_neg fun h => hid h.1, if_neg fun h => hid h.1]

/-- A call that has not been authorised has asked for nothing. -/
def RefundCall.Fresh (call : RefundCall) : Prop := call.pc = .read → call.request = none

theorem RefundCall.Fresh.moves (h : call.Fresh) (hm : call.Moves number s call') : call'.Fresh := by
  cases hm with
  | stays => exact h
  | authorized id t hpc ha ht => exact nofun
  | unnamed id hpc ha => exact nofun
  | asks t cents hpc hcents => exact nofun
  | replied success hpc => exact nofun
  | refused t hpc he => exact nofun
  | fails e he => exact nofun

theorem RefundCall.Aimed.moves (h : call.Aimed number paidBy) (hf : call.Fresh) (hm : call.Moves number s call')
    (hwithin : call.pc = .read → ∀ id, s.authorize call.input = .ok id →
      ∃ event, paidBy id = some event ∧ transactionOf number call.input.providerReference = number event) :
    call'.Aimed number paidBy := by
  cases hm with
  | stays => exact h
  | authorized id t hpc ha ht =>
    refine ⟨fun i u hi hu => ?_, fun i r _ hr => ?_⟩
    · obtain rfl : id = i := Option.some.inj hi
      obtain rfl : t = u := RefundPc.token.inj hu
      obtain ⟨event, hevent, heq⟩ := hwithin hpc id ha
      exact ⟨event, hevent, heq ▸ ht⟩
    · rw [hf hpc] at hr
      cases hr
  | unnamed id hpc ha =>
    refine ⟨(fun i u _ hu => nomatch hu), fun i r _ hr => ?_⟩
    rw [hf hpc] at hr
    cases hr
  | asks t cents hpc hcents =>
    refine ⟨(fun i u _ hu => nomatch hu), fun i r hi hr => ?_⟩
    obtain rfl : RefundRequest.mk t cents = r := Option.some.inj hr
    exact h.token i t hi hpc
  | replied success hpc => exact ⟨(fun i u _ hu => nomatch hu), h.request⟩
  | refused t hpc he => exact ⟨(fun i u _ hu => nomatch hu), h.request⟩
  | fails e he => exact ⟨(fun i u _ hu => nomatch hu), h.request⟩

/-- What is known of the transaction that paid stays so. -/
theorem RefundCall.Aimed.keeps (h : call.Aimed number paidBy) (heq : ∀ id, call.payment = some id → paidBy' id = paidBy id) :
    call.Aimed number paidBy' := by
  refine ⟨fun id t hid ht => ?_, fun id r hid hr => ?_⟩
  · rw [heq id hid]
    exact h.token id t hid ht
  · rw [heq id hid]
    exact h.request id r hid hr

end Moves

/-! ### The steps of the desk -/

/-- Refunds aside, rows are only added and closed. -/
structure Desk.Frame (d d' : Desk) : Prop where
  refunds : d'.refunds = d.refunds
  keeps : d.tables.Keeps d'.tables
  rows : ∀ (id : ℕ) (row' : PendingPayment), d'.tables.payments[id]? = some row' →
    (∃ row : PendingPayment, d.tables.payments[id]? = some row ∧ row.amountMicros = row'.amountMicros) ∨
      (d.tables.payments[id]? = none ∧ 0 ≤ row'.amountMicros)
  paidBy : ∀ id ref, d.tables.Paid id ref → d'.paidBy id = d.paidBy id

section Steps

variable {plans : String → Option Plan} {number : String → Option ℤ} {d d' : Desk} {a : DeskAction} {id : ℕ}

theorem Desk.Frame.of_keeps (hr : d'.refunds = d.refunds) (hk : d.tables.Keeps d'.tables)
    (hl : d'.tables.payments.length = d.tables.payments.length) (hp : ∀ id ref, d.tables.Paid id ref → d'.paidBy id = d.paidBy id) :
    d.Frame d' := by
  refine ⟨hr, hk, fun id row' hrow' => ?_, hp⟩
  obtain ⟨hlt, -⟩ := List.getElem?_eq_some_iff.mp hrow'
  have hrow := List.getElem?_eq_getElem (hl ▸ hlt)
  obtain ⟨row'', hrow'', hamount, -⟩ := hk id _ hrow
  obtain rfl : row'' = row' := Option.some.inj (hrow''.symm.trans hrow')
  exact .inl ⟨_, hrow, hamount.symm⟩

theorem statusOf_paid {s : Tables} {ref : String} (h : s.Paid id ref) : s.statusOf id = some .SUCCEEDED := by
  obtain ⟨row, hrow, hstatus, -⟩ := h
  unfold Tables.statusOf
  rw [hrow, Option.map_some, hstatus]

/-- A payment is paid by one event. -/
theorem paidAfter_eq {event : PaymentEvent} {pc : PaymentPc} {ref : String} (h : d.tables.Paid id ref) :
    d.paidAfter event pc id = d.paidBy id := by
  unfold Desk.paidAfter
  split
  · rename_i i
    split
    · rename_i hpending
      refine Function.update_of_ne (fun heq => ?_) _ _
      rw [← heq, statusOf_paid h] at hpending
      cases hpending
    · rfl
  · rfl

theorem Opens.amount_nonneg {s : Tables} {payment : PendingPayment} (h : s.Opens payment = true) : 0 ≤ payment.amountMicros := by
  unfold Tables.Opens piastersFromMicros at h
  by_cases hle : (payment.amountMicros : ℚ) ≤ 0
  · rw [if_pos (.inr (.inl hle))] at h
    simp [Except.toOption] at h
  · exact_mod_cast (not_le.mp hle).le

theorem Desk.next_cases (h : d.next plans number a = some d') :
    d.Frame d' ∨ (∃ input, d' = { d with refunds := d.refunds ++ [{ input }] }) ∨
      ∃ k reply call, a = .turn k reply ∧ d.refunds[k]? = some call ∧ d' = { d with refunds := d.refunds.set k (call.step number reply d.tables) } := by
  cases a with
  | checkout payment =>
    unfold Desk.next at h
    dsimp only at h
    split at h
    · rename_i hopens
      obtain rfl := Option.some.inj h
      refine .inl ⟨rfl, fun id row hrow => ?_, fun id row' hrow' => ?_, fun _ _ _ => rfl⟩
      · exact ⟨row, by rw [List.getElem?_append_left (List.getElem?_eq_some_iff.mp hrow).1]; exact hrow, rfl, rfl, fun h => h⟩
      · by_cases hlt : id < d.tables.payments.length
        · exact .inl ⟨row', by rwa [List.getElem?_append_left hlt] at hrow', rfl⟩
        · rw [List.getElem?_append_right (not_lt.mp hlt)] at hrow'
          obtain rfl := List.mem_singleton.mp (List.mem_of_getElem? hrow')
          exact .inr ⟨List.getElem?_eq_none (not_lt.mp hlt), Opens.amount_nonneg hopens⟩
    · cases h
  | deliver event =>
    obtain rfl := Option.some.inj h
    exact .inl (.of_keeps rfl (.of_eq rfl) rfl fun _ _ _ => rfl)
  | apply k clock =>
    obtain ⟨delivery, -, rfl⟩ := Option.map_eq_some_iff.mp h
    obtain ⟨hk, hl⟩ := step_keeps plans number delivery.1 clock delivery.2 d.tables
    exact .inl (.of_keeps rfl hk hl fun _ _ hp => paidAfter_eq hp)
  | sweep input =>
    obtain rfl := Option.some.inj h
    exact .inl (.of_keeps rfl (.of_eq rfl) rfl fun _ _ _ => rfl)
  | expire k =>
    obtain ⟨sweep, -, rfl⟩ := Option.map_eq_some_iff.mp h
    obtain ⟨hk, hl⟩ := sweep_keeps sweep.1 sweep.2 d.tables
    exact .inl (.of_keeps rfl hk hl fun _ _ _ => rfl)
  | elsewhere store receipts =>
    obtain rfl := Option.some.inj h
    exact .inl (.of_keeps rfl (.of_eq rfl) rfl fun _ _ _ => rfl)
  | request input => exact .inr (.inl ⟨input, (Option.some.inj h).symm⟩)
  | turn k reply =>
    obtain ⟨call, hcall, rfl⟩ := Option.map_eq_some_iff.mp h
    exact .inr (.inr ⟨k, reply, call, rfl, hcall, rfl⟩)

/-- What is recorded of the refunds, in every run. -/
structure Desk.Sound (d : Desk) : Prop where
  recorded : ∀ call ∈ d.refunds, call.Recorded d.tables
  fresh : ∀ call ∈ d.refunds, call.Fresh

theorem Desk.Sound.next (hd : d.Sound) (h : d.next plans number a = some d') : d'.Sound := by
  rcases Desk.next_cases h with hframe | ⟨input, rfl⟩ | ⟨k, reply, call, -, hcall, rfl⟩
  · refine ⟨fun call hmem => ?_, fun call hmem => ?_⟩
    · rw [hframe.refunds] at hmem
      exact (hd.recorded call hmem).keeps hframe.keeps
    · rw [hframe.refunds] at hmem
      exact hd.fresh call hmem
  · refine ⟨fun call hmem => ?_, fun call hmem => ?_⟩
    · rcases List.mem_append.mp hmem with hmem | hmem
      · exact hd.recorded call hmem
      · obtain rfl := List.mem_singleton.mp hmem
        exact ⟨nofun, nofun, nofun, nofun⟩
    · rcases List.mem_append.mp hmem with hmem | hmem
      · exact hd.fresh call hmem
      · obtain rfl := List.mem_singleton.mp hmem
        exact fun _ => rfl
  · have hmem := List.mem_of_getElem? hcall
    have hmoves := call.step_moves number reply d.tables
    refine ⟨fun c hc => ?_, fun c hc => ?_⟩
    · rcases List.mem_or_eq_of_mem_set hc with hc | rfl
      · exact hd.recorded c hc
      · exact (hd.recorded call hmem).moves hmoves
    · rcases List.mem_or_eq_of_mem_set hc with hc | rfl
      · exact hd.fresh c hc
      · exact (hd.fresh call hmem).moves hmoves

/-- The refunds of a payment that are not known to have failed are no more than it charged, and they are asked of the transaction
that paid. -/
structure Desk.Bounded (number : String → Option ℤ) (d : Desk) : Prop where
  room : ∀ id row, d.tables.payments[id]? = some row → d.claimed id ≤ row.amountMicros
  aimed : ∀ call ∈ d.refunds, call.Aimed number d.paidBy

/-- What the condition says of a refund that is about to be authorised. -/
theorem within_turn {k : ℕ} {reply : Reply} {call : RefundCall} (h : d.within number (.turn k reply) = true) (hcall : d.refunds[k]? = some call)
    (hpc : call.pc = .read) (ha : d.tables.authorize call.input = .ok id) :
    (∀ row, d.tables.payments[id]? = some row → d.claimed id + call.input.amountMicros.num ≤ row.amountMicros) ∧
      ∃ event, d.paidBy id = some event ∧ transactionOf number call.input.providerReference = number event := by
  unfold Desk.within at h
  dsimp only at h
  rw [hcall, Option.all_some, hpc, ha] at h
  dsimp only at h
  obtain ⟨hroom, haim⟩ := Bool.and_eq_true_iff.mp h
  obtain ⟨event, hevent, haim⟩ := Option.any_eq_true _ _ |>.mp haim
  refine ⟨fun row hrow => ?_, event, hevent, of_decide_eq_true (Bool.and_eq_true_iff.mp haim).2⟩
  rw [hrow, Option.all_some] at hroom
  exact of_decide_eq_true hroom

/-- Nothing is claimed of a payment that has no row. -/
theorem claimed_eq_zero (hd : d.Sound) (h : d.tables.payments[id]? = none) : d.claimed id = 0 := by
  refine List.sum_eq_zero fun x hx => ?_
  obtain ⟨call, hmem, rfl⟩ := List.mem_map.mp hx
  refine if_neg fun hc => ?_
  obtain ⟨⟨row, hrow, -⟩, -⟩ := (hd.recorded call hmem).payment id hc.1
  rw [h] at hrow
  cases hrow

theorem claimed_set {k : ℕ} {call call' : RefundCall} (hcall : d.refunds[k]? = some call) (id : ℕ) :
    (({ d with refunds := d.refunds.set k call' } : Desk)).claimed id = d.claimed id - call.claimed id + call'.claimed id := by
  obtain ⟨hlt, hget⟩ := List.getElem?_eq_some_iff.mp hcall
  unfold Desk.claimed
  rw [List.map_set, List.sum_set', dif_pos (by simpa using hlt), List.getElem_map, hget]
  ring

theorem Desk.Bounded.next (hb : d.Bounded number) (hd : d.Sound) (h : d.next plans number a = some d') (hw : d.within number a = true) :
    d'.Bounded number := by
  rcases Desk.next_cases h with hframe | ⟨input, rfl⟩ | ⟨k, reply, call, rfl, hcall, rfl⟩
  · have hclaimed (id : ℕ) : d'.claimed id = d.claimed id := by
      unfold Desk.claimed
      rw [hframe.refunds]
    refine ⟨fun id row' hrow' => ?_, fun call hmem => ?_⟩
    · rw [hclaimed]
      rcases hframe.rows id row' hrow' with ⟨row, hrow, heq⟩ | ⟨hnone, hnonneg⟩
      · exact heq ▸ hb.room id row hrow
      · rw [claimed_eq_zero hd hnone]
        exact hnonneg
    · rw [hframe.refunds] at hmem
      exact (hb.aimed call hmem).keeps fun id hid => hframe.paidBy id _ ((hd.recorded call hmem).payment id hid).1
  · refine ⟨fun id row hrow => ?_, fun call hmem => ?_⟩
    · have hclaimed : (({ d with refunds := d.refunds ++ [{ input }] } : Desk)).claimed id = d.claimed id := by
        unfold Desk.claimed
        rw [List.map_append, List.sum_append, List.map_singleton, List.sum_singleton]
        exact add_zero _
      rw [hclaimed]
      exact hb.room id row hrow
    · rcases List.mem_append.mp hmem with hmem | hmem
      · exact hb.aimed call hmem
      · obtain rfl := List.mem_singleton.mp hmem
        exact ⟨nofun, nofun⟩
  · have hmem := List.mem_of_getElem? hcall
    have hmoves := call.step_moves number reply d.tables
    refine ⟨fun id row hrow => ?_, fun c hc => ?_⟩
    · rw [claimed_set hcall]
      have hroom := hb.room id row hrow
      rcases hmoves.claimed_le (hd.recorded call hmem) id with hle | ⟨hpc, ha, hle⟩
      · omega
      · have := (within_turn hw hcall hpc ha).1 row hrow
        omega
    · rcases List.mem_or_eq_of_mem_set hc with hc | rfl
      · exact hb.aimed c hc
      · exact (hb.aimed call hmem).moves (hd.fresh call hmem) hmoves fun hpc id ha => (within_turn hw hcall hpc ha).2

end Steps

/-! ### The refunds of a payment -/

/-- **Refunds.** In every run the provider is asked for nothing of a payment that is not recorded as paid, and for the amount that was
authorised; and while each refund that is authorised finds room beside the earlier ones, and its order to have the number of the
transaction, no payment is refunded more than it charged, and none but the transaction that paid it. -/
theorem refunds_bounded (plans : String → Option Plan) (number : String → Option ℤ) (store : Store) (d : Desk)
    (h : Reaches (Desk.Step plans number) (Desk.opening store) d) :
    (∀ call ∈ d.refunds, call.Recorded d.tables) ∧
      (Reaches (Guarded (Desk.Step plans number) fun u a _ => u.within number a = true) (Desk.opening store) d →
        d.Covered ∧ ∀ call ∈ d.refunds, call.Aimed number d.paidBy) := by
  have hsound {d : Desk} (h : Reaches (Desk.Step plans number) (Desk.opening store) d) : d.Sound :=
    h.inv ⟨nofun, nofun⟩ fun _ _ _ hd hstep => hd.next hstep
  refine ⟨(hsound h).recorded, fun hguarded => ?_⟩
  obtain ⟨hd, hb⟩ : d.Sound ∧ d.Bounded number := by
    refine hguarded.inv (I := fun u => u.Sound ∧ u.Bounded number)
      ⟨hsound (Reaches.refl _), nofun, nofun⟩ ?_
    rintro u a u' ⟨hu, hbu⟩ ⟨hstep, hw⟩
    exact ⟨hu.next hstep, hbu.next hu hstep hw⟩
  refine ⟨fun id row hrow => le_trans ?_ (hb.room id row hrow), hb.aimed⟩
  exact List.sum_le_sum fun call hmem => RefundCall.confirmed_le_claimed (hd.recorded call hmem) id

/-- The numbers of the references that occur. -/
def referenceNumber (text : String) : Option ℤ := if text = "42" then some 42 else if text = "77" then some 77 else none

/-- A checkout of 99 piasters, which the transaction of this id pays. -/
def paidFor (transaction : String) : List DeskAction :=
  [.checkout ⟨"user", "subscription", "42", 990000, .PENDING, [("kind", "subscription"), ("planId", "pro")], 0⟩,
    .deliver ⟨transaction, .paymentSucceeded, "42", "user", 990000, [("kind", "subscription"), ("planId", "pro")]⟩] ++
    List.replicate 7 (.apply 0 5)

/-- A call asks for a refund, and is confirmed it. -/
def refundOf (call : ℕ) (amountMicros : ℚ) : List DeskAction :=
  .request ⟨"42", amountMicros⟩ :: List.replicate 3 (.turn call (.answered true))

def noStore : Store := ⟨⟨[], [], []⟩, none, []⟩

theorem refunds_bounded_in_parts : ∃ d : Desk, (∀ call ∈ d.refunds, call.Recorded d.tables) ∧ d.Covered ∧
    (∀ call ∈ d.refunds, call.Aimed referenceNumber d.paidBy) ∧ d.confirmed 0 = 990000 := by
  obtain ⟨d, hrun, hconfirmed⟩ := Reaches.exists_of_play (Desk.next onlyPro referenceNumber) (Desk.within referenceNumber) (Desk.opening noStore)
    (paidFor "42" ++ refundOf 0 400000 ++ refundOf 1 590000) (fun d => d.confirmed 0 = 990000) (by decide)
  have h := refunds_bounded onlyPro referenceNumber noStore d hrun.of_guarded
  exact ⟨d, h.1, (h.2 hrun).1, (h.2 hrun).2, hconfirmed⟩

/-- **A payment is refunded twice, and of a transaction that did not pay it.** The transaction `77` paid the order `42`, and the provider is
asked twice for all of it, of the transaction `42`. -/
theorem refunded_twice : ∃ d : Desk, Reaches (Desk.Step onlyPro referenceNumber) (Desk.opening noStore) d ∧ ¬ d.Covered ∧
    ∀ call ∈ d.refunds, call.pc = .returned true ∧ ¬ call.Aimed referenceNumber d.paidBy := by
  obtain ⟨d, hrun, hpayment, hconfirmed, hpaidBy, hrefunds⟩ :=
    Reaches.exists_of_play (Desk.next onlyPro referenceNumber) (fun _ _ => true) (Desk.opening noStore)
      (paidFor "77" ++ refundOf 0 990000 ++ refundOf 1 990000)
      (fun d => (d.tables.payments[0]?).map (·.amountMicros) = some 990000 ∧ d.confirmed 0 = 1980000 ∧ d.paidBy 0 = some "77" ∧
        d.refunds.all fun call => call.pc = .returned true && call.payment = some 0 && call.request = some ⟨42, 99⟩) (by decide)
  refine ⟨d, hrun.of_guarded, fun h => ?_, fun call hmem => ?_⟩
  · obtain ⟨row, hrow, hamount⟩ := Option.map_eq_some_iff.mp hpayment
    have := h 0 row hrow
    omega
  · have := List.all_eq_true.mp hrefunds call hmem
    simp only [Bool.and_eq_true, decide_eq_true_eq] at this
    obtain ⟨⟨hpc, hpaid⟩, hrequest⟩ := this
    refine ⟨hpc, fun haimed => ?_⟩
    obtain ⟨event, hevent, hnumber⟩ := haimed.request 0 _ hpaid hrequest
    obtain rfl : "77" = event := Option.some.inj (hpaidBy.symm.trans hevent)
    exact absurd hnumber (by decide)

end WebAudit.Billing
