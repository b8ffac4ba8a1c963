import WebAudit.Billing.Subscription

/-!
# The billing webhook: deliveries of renewal events

The handler of `POST /webhooks/billing` after the signature check, for the events whose
effect is `renewSubscription` (`subscription.renewed`, `invoice.paid` and
`subscription.expired`). A delivery inserts the event's row; if it was there already, it
goes on only when the event was never applied; it runs the effect, and marks the event
applied. An error of the effect is answered with 500, and the provider delivers again.

`Feed` is the sequence of deliveries: one at a time, each going from call to call, and
each may die between any two calls. Two lists are kept that the tables do not show: the
events received, and the deliveries that committed the effect of their event.
-/

namespace WebAudit.Billing

open WebAudit.Lib WebAudit.Credits

/-- One delivery of an event: its id, and the clock at the call of its effect. -/
structure Delivery where
  event : String
  now : ℤ
  deriving DecidableEq

/-- The call of `renewSubscription` that a delivery makes. -/
def Delivery.input (d : Delivery) : RenewInput := ⟨d.now, some d.event⟩

/-- Where the handler stands. -/
inductive WebhookPc where
  /-- Before the event's row is inserted. -/
  | insert
  /-- The row was there; it is read next. -/
  | lookup
  /-- In the effect. -/
  | effect (pc : RenewPc)
  /-- The effect is done; the event is marked applied next. -/
  | mark
  /-- Answered, with this status. -/
  | responded (status : ℕ)
  deriving DecidableEq

section Handler

variable (plans : String → Option Plan)

/-- The next database call of the handler. -/
def WebhookPc.step (d : Delivery) (clock : ℤ) (pc : WebhookPc) (s : Store) : WebhookPc × Store :=
  match pc with
  | .insert =>
    match s.eventRow d.event with
    | some _ => (.lookup, s)
    | none => (.effect .read, s.receive d.event)
  | .lookup => if s.applied d.event then (.responded 200, s) else (.effect .read, s)
  | .effect pc =>
    match RenewPc.step plans d.input clock pc s with
    | (.returned _, s') => (.mark, s')
    | (.threw _, s') => (.responded 500, s')
    | (pc', s') => (.effect pc', s')
  | .mark => (.responded 200, s.markApplied d.event clock)
  | .responded status => (.responded status, s)

/-- The handler answered. -/
def WebhookPc.isDone : WebhookPc → Bool
  | .responded _ => true
  | _ => false

/-- The step from one point to the next committed the effect: the subscription lapsed, or the next
period is there, written now or by whoever was granted for the event before. -/
def commits : WebhookPc → WebhookPc → Bool
  | .effect .lapse, .mark => true
  | .effect (.write _ _), .mark => true
  | .effect (.write _ _), .effect .reread => true
  | _, _ => false

/-- The deliveries so far. -/
structure Feed where
  store : Store
  /-- The delivery being handled. -/
  current : Option (Delivery × WebhookPc)
  /-- The events of all deliveries. -/
  received : List String
  /-- The deliveries that committed the effect of their event, each event once. -/
  committed : List Delivery
  deriving DecidableEq

def Feed.start (s : Store) : Feed := ⟨s, none, [], []⟩

/-- The events whose effect was committed. -/
def Feed.done (f : Feed) : List String := f.committed.map (·.event)

inductive FeedAction where
  /-- The provider delivers. -/
  | receive (d : Delivery)
  /-- The handler makes its next call. -/
  | advance (clock : ℤ)
  /-- The handler dies. -/
  | crash
  deriving DecidableEq

/-- What an action leads to, where it is possible. -/
def Feed.next (f : Feed) : FeedAction → Option Feed
  | .receive d =>
    match f.current with
    | some _ => none
    | none => some { f with current := some (d, .insert), received := d.event :: f.received }
  | .advance clock =>
    match f.current with
    | none => none
    | some (d, pc) =>
      let (pc', s') := WebhookPc.step plans d clock pc f.store
      some
        { store := s'
          current := if pc'.isDone then none else some (d, pc')
          received := f.received
          committed := if commits pc pc' && !(f.done.contains d.event) then f.committed ++ [d] else f.committed }
  | .crash =>
    match f.current with
    | none => none
    | some _ => some { f with current := none }

/-- The feed as a transition system. -/
def Feed.Step (f : Feed) (a : FeedAction) (f' : Feed) : Prop := f.next plans a = some f'

/-- One delivery from beginning to end, with nothing going wrong around it. -/
def deliverOnce (s : Store) (d : Delivery) : Store :=
  ((fun p : WebhookPc × Store => WebhookPc.step plans d d.now p.1 p.2)^[7] (.insert, s)).2

end Handler

end WebAudit.Billing
