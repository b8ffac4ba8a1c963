import WebAudit.Billing.Payment
import WebAudit.Lib.Json

/-!
# Paymob: signed transactions

A transaction of the payment provider Paymob reaches the service as the body of a webhook,
or as the query of the browser's return, which `signedPayload`
(`routes/payment-return.routes.ts`) turns into the same shape. `verifyWebhook`
(`services/billing/paymob-payment-provider.ts`) accepts it if its signature is the HMAC of
`paymobTransactionHmacString` (`paymob-hmac.ts`), the texts of twenty fields one after
the other, and maps it to a payment event.

What the code takes from its platform is collected in `Paymob`: the HMAC, `Number(text)`,
and the text that a checkout context travels as.
-/

namespace WebAudit.Billing

open WebAudit.Lib

/-- What a checkout is for; it travels with the order as `merchant_order_id`. -/
structure CheckoutContext where
  userId : String
  kind : String
  metadata : Metadata
  deriving DecidableEq

/-- The provider's configuration, and the functions of the platform that it uses. -/
structure Paymob where
  /-- `createHmac('sha512', key).update(message).digest()`. -/
  hmac : String → String → List ℕ
  /-- `Number(text)`, where it is finite. -/
  number : String → Option Number
  /-- The base64url form of the JSON text of a context. -/
  encode : CheckoutContext → String
  /-- The value whose JSON text this is the base64url form of, if there is one. -/
  decode : String → Option Json
  hmacSecret : String
  integrationId : String

/-! ### The signature -/

/-- Where a signed field stands in a transaction. -/
inductive TransactionField where
  | key (name : String)
  /-- The order, by its id. -/
  | order
  | nested (parent child : String)
  deriving DecidableEq

/-- `TRANSACTION_FIELDS`. -/
def transactionFields : List TransactionField :=
  [.key "amount_cents", .key "created_at", .key "currency", .key "error_occured", .key "has_parent_transaction",
    .key "id", .key "integration_id", .key "is_3d_secure", .key "is_auth", .key "is_capture", .key "is_refunded",
    .key "is_standalone_payment", .key "is_voided", .order, .key "owner", .key "pending",
    .nested "source_data" "pan", .nested "source_data" "sub_type", .nested "source_data" "type", .key "success"]

/-- `callbackObject`: the transaction may be wrapped. -/
def callbackObject (payload : Json) : Option Json :=
  match payload with
  | .object fields =>
    match payload.field "obj" with
    | some (.object inner) => some (.object inner)
    | _ => some (.object fields)
  | _ => none

/-- `valueAt`. -/
def valueAt (transaction : Json) : TransactionField → Option Json
  | .key name => transaction.field name
  | .order =>
    match transaction.field "order" with
    | some (.object order) => (Json.object order).field "id"
    | value => value
  | .nested parent child => (transaction.field parent).bind (·.field child)

/-- The text of a signed field, if it is there and not null. -/
def signedText (transaction : Json) (field : TransactionField) : Option String :=
  match valueAt transaction field with
  | none | some .null => none
  | some value => some value.text

/-- `paymobTransactionHmacString`. -/
def paymobTransactionHmacString (payload : Json) : Option String :=
  (callbackObject payload).bind fun transaction =>
    (transactionFields.mapM (signedText transaction)).map String.join

def isHexDigit (c : Char) : Bool := c.isDigit || ('a' ≤ c && c ≤ 'f') || ('A' ≤ c && c ≤ 'F')

/-- `isSha512Hex`. -/
def isSha512Hex (value : String) : Bool := value.toList.length = 128 && value.toList.all isHexDigit

def hexValue (c : Char) : ℕ :=
  if c.isDigit then c.toNat - '0'.toNat else if 'a' ≤ c then c.toNat - 'a'.toNat + 10 else c.toNat - 'A'.toNat + 10

/-- `Buffer.from(value, 'hex')`. -/
def fromHex : List Char → List ℕ
  | a :: b :: rest => (16 * hexValue a + hexValue b) :: fromHex rest
  | _ => []

/-- `signatureFrom`. -/
def signatureFrom (headers : String → Option String) : Option String :=
  (headers "hmac").or ((headers "x-paymob-hmac").or (headers "x-webhook-signature"))

variable (P : Paymob)

/-- `verifyPaymobTransactionHmac`. -/
def verifyPaymobTransactionHmac (payload : Json) (signature : Option String) : Bool :=
  match signature with
  | none => false
  | some signature =>
    if isSha512Hex signature then
      match paymobTransactionHmacString payload with
      | none => false
      | some message => fromHex signature.toList = P.hmac P.hmacSecret message
    else false

/-! ### The event -/

/-- `microsFromPiasters`. -/
def microsFromPiasters (amountCents : Option Json) : Option ℤ :=
  match amountCents with
  | some (.number x) => x.safeNat.bind fun n => if n * 10000 ≤ maxSafeInteger then some (n * 10000 : ℕ) else none
  | _ => none

/-- A record all of whose values are strings. -/
def stringEntries (fields : List (String × Json)) : Option Metadata :=
  fields.mapM fun f =>
    match f.2 with
    | .string s => some (f.1, s)
    | _ => none

/-- `decodeCheckoutContext`. -/
def decodeCheckoutContext (value : Option Json) : Option CheckoutContext :=
  match value with
  | some (.string s) =>
    if "webaudit:".toList.isPrefixOf s.toList then
      (P.decode (String.ofList (s.toList.drop "webaudit:".length))).bind fun parsed =>
        match parsed.field "userId", parsed.field "kind", parsed.field "metadata" with
        | some (.string userId), some (.string kind), some (.object metadata) =>
          if kind = "subscription" ∨ kind = "credits" then (stringEntries metadata).map fun m => ⟨userId, kind, m⟩
          else none
        | _, _, _ => none
    else none
  | _ => none

/-- An id: a string or a number, as a string. -/
def idText (value : Option Json) : Option String :=
  match value with
  | some (.string s) => some s
  | some (.number x) => some x.text
  | _ => none

/-- What a transaction reports. Of its flags, a refund and the success decide. -/
def eventType (transaction : Json) (success : Bool) : PaymentEventType :=
  match transaction.field "is_refunded" with
  | some (.bool true) => .refundSucceeded
  | _ => if success then .paymentSucceeded else .paymentFailed

/-- The event of a transaction, if it has everything an event needs. -/
def transactionEvent (transaction : Json) : Option PaymentEvent :=
  match transaction.field "order" with
  | some (.object order) =>
    match decodeCheckoutContext P ((Json.object order).field "merchant_order_id"),
      microsFromPiasters (transaction.field "amount_cents"), idText (transaction.field "id"),
      idText ((Json.object order).field "id"), transaction.field "currency", transaction.field "success" with
    | some context, some amountMicros, some id, some orderId, some (.string currency), some (.bool success) =>
      if currency = "EGP" ∧ ((transaction.field "integration_id").map Json.text).getD "undefined" = P.integrationId then
        some
          { id := id, type := eventType transaction success, providerReference := orderId, userId := context.userId
            amountMicros := amountMicros, metadata := ("kind", context.kind) :: context.metadata }
      else none
    | _, _, _, _, _, _ => none
  | _ => none

/-- `PaymentWebhookVerification`. -/
structure PaymentWebhookVerification where
  valid : Bool
  events : List PaymentEvent
  deriving DecidableEq

/-- `verifyWebhook`, from the parsed body, if it parses. -/
def verifyWebhook (payload : Option Json) (signature : Option String) : PaymentWebhookVerification :=
  match payload with
  | none => ⟨false, []⟩
  | some payload =>
    if verifyPaymobTransactionHmac P payload signature then
      match (callbackObject payload).bind (transactionEvent P) with
      | none => ⟨false, []⟩
      | some event => ⟨true, [event]⟩
    else ⟨false, []⟩

/-! ### The browser's return -/

/-- A value of a parsed query. -/
inductive QueryValue where
  | text (s : String)
  | list (values : List QueryValue)
  | nested

/-- `one`: the value, or the first of several. -/
def QueryValue.one : QueryValue → Option String
  | .text s => some s
  | .list [] => none
  | .list (value :: _) => value.one
  | .nested => none

abbrev Query := List (String × QueryValue)

def Query.one (query : Query) (key : String) : Option String := (query.lookup key).bind QueryValue.one

/-- `bool`. -/
def Query.bool (query : Query) (key : String) : Option Bool :=
  match query.one key with
  | some text => if text = "true" then some true else if text = "false" then some false else none
  | none => none

/-- `number`. -/
def Query.number (query : Query) (key : String) : Option Number :=
  match query.one key with
  | some text => if text.toList.all isSpace then none else P.number text
  | none => none

/-- The fields of `signedPayload`, with the checkout context that the route adds to its order. -/
def signedFields (query : Query) (context : String) : List (String × Option Json) :=
  let text (key : String) : String × Option Json := (key, (query.one key).map .string)
  let bool (key : String) : String × Option Json := (key, (query.bool key).map .bool)
  let number (key : String) : String × Option Json := (key, (query.number P key).map .number)
  [number "amount_cents", text "created_at", text "currency", bool "error_occured", bool "has_parent_transaction",
    number "id", number "integration_id", bool "is_3d_secure", bool "is_auth", bool "is_capture", bool "is_refunded",
    bool "is_standalone_payment", bool "is_voided",
    ("order", some (.record
      [("id", (query.number P "order").map .number), ("merchant_order_id", some (.string ("webaudit:" ++ context)))])),
    number "owner", bool "pending",
    ("source_data", some (.record
      [("pan", (query.one "source_data.pan").map .string),
        ("sub_type", (query.one "source_data.sub_type").map .string),
        ("type", (query.one "source_data.type").map .string)])),
    bool "success"]

/-- `signedPayload`, with the context. -/
def signedPayload (query : Query) (context : String) : Json :=
  .record [("obj", some (.record (signedFields P query context)))]

/-- The context of a pending payment, as the route rebuilds it. -/
def PendingPayment.context (pending : PendingPayment) : CheckoutContext :=
  ⟨pending.userId, pending.kind, pending.metadata⟩

/-! ### Both ways -/

/-- How a transaction arrives. -/
inductive Arrival where
  | webhook (body : Option Json) (headers : String → Option String)
  /-- The browser's return, when the payments are these. -/
  | paymentReturn (query : Query) (payments : List PendingPayment)

/-- The payload that is verified. The return has none if its order is not that of a payment. -/
def Arrival.payload : Arrival → Option Json
  | .webhook body _ => body
  | .paymentReturn query payments =>
    (query.number P "order").bind fun order =>
      (payments.find? (·.providerReference = order.text)).map fun pending =>
        signedPayload P query (P.encode pending.context)

def Arrival.signature : Arrival → Option String
  | .webhook _ headers => signatureFrom headers
  | .paymentReturn query _ => query.one "hmac"

/-- What `verifyWebhook` makes of it. -/
def Arrival.verification (arrival : Arrival) : PaymentWebhookVerification :=
  verifyWebhook P (arrival.payload P) arrival.signature

/-- The transaction is accepted as this event. -/
def Arrival.Accepted (arrival : Arrival) (event : PaymentEvent) : Prop := arrival.verification P = ⟨true, [event]⟩

end WebAudit.Billing
