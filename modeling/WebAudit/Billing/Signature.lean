import WebAudit.Billing.Paymob
import WebAudit.Lib.Concat
import WebAudit.Lib.Runs

/-!
# What a payment signature pins down

The signed text is the concatenation of twenty texts without separators, so that the same
text, and the same signature, may be split among the fields in more than one way: an
amount of 100 made at `2026…` is signed like one of 1002 made at `026…`
(`amount_not_pinned_down`), and an order and its owner, side by side as they are, may
trade digits.

What does hold (`signature_pins_down`) is read off the text from one landmark to the next:
the currency, which should occur in it once; the flags, which form a prefix-free code; the
runs of digits between them; and the success, at the end. It takes that the flags are
booleans and the ids numbers, which the browser's return makes sure of and the webhook
does not check. And an event that is a refund or no success grants nothing, whatever the
state and the interleaving in which it is applied (`idle_step`).
-/

namespace WebAudit.Billing

open WebAudit.Lib

/-! ### The signed text, field by field -/

/-- The text a field contributes. -/
def textOf (tx : Json) (f : TransactionField) : String := (signedText tx f).getD ""

variable {P : Paymob} {tx tx' : Json} {payload : Json} {e : PaymentEvent} {f : TransactionField}

theorem mapM_some {α β : Type} {g : α → Option β} {l : List α} {vs : List β} (h : l.mapM g = some vs) :
    ∀ a ∈ l, ∃ b, g a = some b := by
  induction l generalizing vs with
  | nil =>
    intro a ha
    cases ha
  | cons x l ih =>
    rw [List.mapM_cons] at h
    obtain ⟨b, hb, h⟩ := Option.bind_eq_some_iff.mp h
    obtain ⟨ws, hw, -⟩ := Option.bind_eq_some_iff.mp h
    intro a ha
    rcases List.mem_cons.mp ha with rfl | ha
    · exact ⟨b, hb⟩
    · exact ih hw a ha

theorem mapM_getD {α β : Type} {g : α → Option β} {l : List α} {vs : List β} (d : β) (h : l.mapM g = some vs) :
    vs = l.map fun a => (g a).getD d := by
  induction l generalizing vs with
  | nil =>
    cases h
    rfl
  | cons x l ih =>
    rw [List.mapM_cons] at h
    obtain ⟨b, hb, h⟩ := Option.bind_eq_some_iff.mp h
    obtain ⟨ws, hw, h⟩ := Option.bind_eq_some_iff.mp h
    obtain rfl : b :: ws = vs := Option.some.inj h
    rw [ih hw, List.map_cons, hb, Option.getD_some]

/-- The signed text: every field is there, and their texts follow each other. -/
theorem hmacString_some {message : String} (h : paymobTransactionHmacString payload = some message) :
    ∃ tx, callbackObject payload = some tx ∧ (∀ f ∈ transactionFields, signedText tx f = some (textOf tx f)) ∧
      message.toList = transactionFields.flatMap fun f => (textOf tx f).toList := by
  obtain ⟨tx, htx, h⟩ := Option.bind_eq_some_iff.mp h
  obtain ⟨vs, hvs, rfl⟩ := Option.map_eq_some_iff.mp h
  refine ⟨tx, htx, fun f hf => ?_, ?_⟩
  · obtain ⟨b, hb⟩ := mapM_some hvs f hf
    unfold textOf
    rw [hb, Option.getD_some]
  · rw [mapM_getD "" hvs, String.toList_join, List.flatMap_map]
    rfl

/-- What is printed is the field's value. -/
theorem textOf_eq {v : Json} (hv : valueAt tx f = some v) (h : signedText tx f = some (textOf tx f)) :
    textOf tx f = v.text := by
  unfold signedText at h
  rw [hv] at h
  cases v <;> simp_all

/-! ### Transactions with the types that the provider documents -/

/-- The flags of a transaction. -/
def flagNames : List String :=
  ["error_occured", "has_parent_transaction", "is_3d_secure", "is_auth", "is_capture", "is_refunded",
    "is_standalone_payment", "is_voided", "pending"]

/-- Its numbers. -/
def numberFields : List TransactionField := [.key "id", .key "integration_id", .order, .key "owner"]

/-- The flags are booleans, and the ids are numbers. -/
structure WellTyped (tx : Json) : Prop where
  flags : ∀ name ∈ flagNames, ∃ b, tx.field name = some (.bool b)
  numbers : ∀ f ∈ numberFields, ∃ x, valueAt tx f = some (.number x)

/-- The texts of the booleans. -/
def boolTexts : Set (List Char) := {"true".toList, "false".toList}

/-- A letter of a number. -/
abbrev IsNumberLetter (c : Char) : Prop := isNumberLetter c = true

theorem boolTexts_prefixFree : PrefixFree boolTexts := by
  rintro x (rfl | rfl) y (rfl | rfl) h
  · rfl
  · exact absurd h (by decide)
  · exact absurd h (by decide)
  · rfl

theorem boolTexts_suffixFree : ∀ x ∈ boolTexts, ∀ y ∈ boolTexts, x <:+ y → x = y := by
  rintro x (rfl | rfl) y (rfl | rfl) h
  · rfl
  · exact absurd h (by decide)
  · exact absurd h (by decide)
  · rfl

theorem text_bool (b : Bool) : (Json.bool b).text.toList ∈ boolTexts := by
  cases b
  · exact Or.inr rfl
  · exact Or.inl rfl

theorem text_bool_inj {b b' : Bool} (h : (Json.bool b).text = (Json.bool b').text) : b = b' := by
  cases b <;> cases b' <;> first | rfl | exact absurd h (by decide)

theorem ends_of_bool {x r : List Char} (hx : x ∈ boolTexts) : Ends IsNumberLetter (x ++ r) := by
  intro a ha
  rcases hx with rfl | rfl
  · obtain rfl : 't' = a := Option.some.inj ha
    decide
  · obtain rfl : 'f' = a := Option.some.inj ha
    decide

/-! ### Reading the signed text apart -/

/-- What the signed text and the types say of a transaction. -/
structure Signed (tx : Json) : Prop where
  present : ∀ f ∈ transactionFields, signedText tx f = some (textOf tx f)
  typed : WellTyped tx
  currency : tx.field "currency" = some (.string "EGP")
  success : ∃ b, tx.field "success" = some (.bool b)

/-- Two signed transactions agree on a field's text. -/
def Same (tx tx' : Json) (f : TransactionField) : Prop := (textOf tx f).toList = (textOf tx' f).toList

theorem flag_signed : ∀ name ∈ flagNames, TransactionField.key name ∈ transactionFields := by decide

theorem number_signed : ∀ f ∈ numberFields, f ∈ transactionFields := by decide

theorem Signed.flag (h : Signed tx) {name : String} (hn : name ∈ flagNames) :
    (textOf tx (.key name)).toList ∈ boolTexts := by
  obtain ⟨b, hb⟩ := h.typed.flags name hn
  rw [textOf_eq (f := .key name) hb (h.present _ (flag_signed name hn))]
  exact text_bool b

theorem Signed.number (h : Signed tx) (hf : f ∈ numberFields) : ∀ c ∈ (textOf tx f).toList, IsNumberLetter c := by
  obtain ⟨x, hx⟩ := h.typed.numbers f hf
  rw [textOf_eq hx (h.present _ (number_signed f hf))]
  exact List.all_eq_true.mp x.printed.2

theorem Signed.success_text (h : Signed tx) : (textOf tx (.key "success")).toList ∈ boolTexts := by
  obtain ⟨b, hb⟩ := h.success
  rw [textOf_eq (f := .key "success") hb (h.present _ (by decide))]
  exact text_bool b

theorem run_of_append {x y : List Char} (hx : ∀ c ∈ x, IsNumberLetter c) (hy : ∀ c ∈ y, IsNumberLetter c) :
    ∀ c ∈ x ++ y, IsNumberLetter c := fun c hc =>
  (List.mem_append.mp hc).elim (hx c) (hy c)

/-- **The signed text, read apart**: what two transactions have in common that have it in common. -/
theorem Signed.read (h : Signed tx) (h' : Signed tx')
    (heq : (transactionFields.flatMap fun f => (textOf tx f).toList) = transactionFields.flatMap fun f => (textOf tx' f).toList)
    (hmark : Marks "EGP".toList (transactionFields.flatMap fun f => (textOf tx f).toList))
    (hintegration : Same tx tx' (.key "integration_id")) :
    (textOf tx (.key "amount_cents")).toList ++ (textOf tx (.key "created_at")).toList =
        (textOf tx' (.key "amount_cents")).toList ++ (textOf tx' (.key "created_at")).toList ∧
      (∀ name ∈ flagNames, Same tx tx' (.key name)) ∧ Same tx tx' (.key "id") ∧ Same tx tx' (.key "success") ∧
      (textOf tx .order).toList ++ (textOf tx (.key "owner")).toList =
        (textOf tx' .order).toList ++ (textOf tx' (.key "owner")).toList := by
  have hcur : textOf tx (.key "currency") = "EGP" := textOf_eq (f := .key "currency") h.currency (h.present _ (by decide))
  have hcur' : textOf tx' (.key "currency") = "EGP" :=
    textOf_eq (f := .key "currency") h'.currency (h'.present _ (by decide))
  have hflag {name : String} (hn : name ∈ flagNames) {r r' : List Char}
      (he : (textOf tx (.key name)).toList ++ r = (textOf tx' (.key name)).toList ++ r') :=
    boolTexts_prefixFree.append_inj (h.flag hn) (h'.flag hn) he
  unfold transactionFields at heq hmark
  simp only [List.flatMap_cons, List.flatMap_nil, hcur, hcur', List.append_nil] at heq hmark
  -- up to the currency
  rw [← List.append_assoc, ← List.append_assoc (textOf tx' (.key "amount_cents")).toList] at heq
  rw [← List.append_assoc] at hmark
  obtain ⟨hhead, heq⟩ := hmark.append_inj heq
  obtain ⟨herror, heq⟩ := hflag (by decide) heq
  obtain ⟨hparent, heq⟩ := hflag (by decide) heq
  -- the id and the integration id, up to the next flag
  rw [← List.append_assoc, ← List.append_assoc (textOf tx' (.key "id")).toList] at heq
  obtain ⟨hids, heq⟩ := run_append_inj
    (run_of_append (h.number (by decide)) (h.number (by decide)))
    (run_of_append (h'.number (by decide)) (h'.number (by decide)))
    (ends_of_bool (h.flag (by decide))) (ends_of_bool (h'.flag (by decide))) heq
  have hid : Same tx tx' (.key "id") := by
    rw [show (textOf tx (.key "integration_id")).toList = _ from hintegration] at hids
    exact List.append_cancel_right hids
  obtain ⟨hsecure, heq⟩ := hflag (by decide) heq
  obtain ⟨hauth, heq⟩ := hflag (by decide) heq
  obtain ⟨hcapture, heq⟩ := hflag (by decide) heq
  obtain ⟨hrefunded, heq⟩ := hflag (by decide) heq
  obtain ⟨hstandalone, heq⟩ := hflag (by decide) heq
  obtain ⟨hvoided, heq⟩ := hflag (by decide) heq
  -- the order and its owner, up to the next flag
  rw [← List.append_assoc, ← List.append_assoc (textOf tx' .order).toList] at heq
  obtain ⟨horder, heq⟩ := run_append_inj
    (run_of_append (h.number (by decide)) (h.number (by decide)))
    (run_of_append (h'.number (by decide)) (h'.number (by decide)))
    (ends_of_bool (h.flag (by decide))) (ends_of_bool (h'.flag (by decide))) heq
  obtain ⟨hpending, heq⟩ := hflag (by decide) heq
  -- the success, off the end
  simp only [← List.append_assoc] at heq
  obtain ⟨-, hsuccess⟩ := suffix_append_inj boolTexts_suffixFree h.success_text h'.success_text heq
  refine ⟨hhead, ?_, hid, hsuccess, horder⟩
  intro name hn
  simp only [flagNames, List.mem_cons, List.not_mem_nil, or_false] at hn
  rcases hn with rfl | rfl | rfl | rfl | rfl | rfl | rfl | rfl | rfl
  · exact herror
  · exact hparent
  · exact hsecure
  · exact hauth
  · exact hcapture
  · exact hrefunded
  · exact hstandalone
  · exact hvoided
  · exact hpending

/-! ### Accepted transactions -/

/-- The transaction that an arrival carries. -/
def Arrival.transaction (P : Paymob) (arrival : Arrival) : Option Json := (arrival.payload P).bind callbackObject

/-- The text that an arrival is signed with. -/
def Arrival.message (P : Paymob) (arrival : Arrival) : Option String :=
  (arrival.payload P).bind paymobTransactionHmacString

/-- The text of one of its signed fields. -/
def Arrival.signed (P : Paymob) (arrival : Arrival) (f : TransactionField) : Option String :=
  (arrival.transaction P).bind fun tx => signedText tx f

/-- What a transaction has that is mapped to an event. -/
structure Mapped (P : Paymob) (tx : Json) (e : PaymentEvent) : Prop where
  currency : tx.field "currency" = some (.string "EGP")
  success : ∃ b, tx.field "success" = some (.bool b) ∧ e.type = eventType tx b
  integration : ((tx.field "integration_id").map Json.text).getD "undefined" = P.integrationId
  id : idText (tx.field "id") = some e.id
  reference : idText (valueAt tx .order) = some e.providerReference
  amount : microsFromPiasters (tx.field "amount_cents") = some e.amountMicros

theorem transactionEvent_some (h : transactionEvent P tx = some e) : Mapped P tx e := by
  unfold transactionEvent at h
  split at h
  · rename_i order horder
    split at h
    · rename_i context amountMicros id orderId currency success hcontext hamount hid horderId hcurrency hsuccess
      split at h
      · rename_i hc
        obtain ⟨rfl, hintegration⟩ := hc
        obtain rfl := Option.some.inj h
        refine ⟨hcurrency, ⟨success, hsuccess, rfl⟩, hintegration, hid, ?_, hamount⟩
        unfold valueAt
        rw [horder]
        exact horderId
      · cases h
    · cases h
  · cases h

/-- What `verifyWebhook` has checked. -/
theorem accepted_some {a : Arrival} (h : a.Accepted P e) :
    ∃ payload tx message signature, a.payload P = some payload ∧ callbackObject payload = some tx ∧
      paymobTransactionHmacString payload = some message ∧ a.signature = some signature ∧
      fromHex signature.toList = P.hmac P.hmacSecret message ∧ Mapped P tx e := by
  unfold Arrival.Accepted Arrival.verification verifyWebhook at h
  rcases hp : a.payload P with _ | payload
  · rw [hp] at h
    cases h
  · rw [hp] at h
    dsimp only at h
    split at h
    · rename_i hv
      split at h
      · cases h
      · rename_i event hevent
        obtain ⟨tx, htx, hev⟩ := Option.bind_eq_some_iff.mp hevent
        obtain rfl : event = e := by
          have := congrArg PaymentWebhookVerification.events h
          exact List.singleton_inj.mp this
        unfold verifyPaymobTransactionHmac at hv
        rcases hs : a.signature with _ | signature
        · rw [hs] at hv
          cases hv
        · rw [hs] at hv
          dsimp only at hv
          split at hv
          · rcases hm : paymobTransactionHmacString payload with _ | message
            · rw [hm] at hv
              cases hv
            · rw [hm] at hv
              exact ⟨payload, tx, message, signature, rfl, htx, hm, rfl, of_decide_eq_true hv, transactionEvent_some hev⟩
          · cases hv
    · cases h

/-- A value of a kind, or nothing. -/
theorem present_of_signed (h : signedText tx f = some (textOf tx f)) : ∃ v, valueAt tx f = some v := by
  unfold signedText at h
  rcases hv : valueAt tx f with _ | v
  · rw [hv] at h
    cases h
  · exact ⟨v, rfl⟩

theorem signedFields_field (query : Query) (context key : String) :
    (Json.record (signedFields P query context)).field key = ((signedFields P query context).lookup key).join := by
  refine Json.field_record ?_ key
  have hkeys : (signedFields P query context).map (·.1) =
      ["amount_cents", "created_at", "currency", "error_occured", "has_parent_transaction", "id", "integration_id",
        "is_3d_secure", "is_auth", "is_capture", "is_refunded", "is_standalone_payment", "is_voided", "order", "owner",
        "pending", "source_data", "success"] := rfl
  rw [hkeys]
  decide

/-- The browser's return has the documented types, or it is not accepted. -/
theorem return_typed {query : Query} {context : String}
    (h : ∀ f ∈ transactionFields, ∃ v, valueAt (.record (signedFields P query context)) f = some v) :
    WellTyped (.record (signedFields P query context)) := by
  have hbool {name : String} (hn : name ∈ flagNames)
      (hl : (signedFields P query context).lookup name = some ((query.bool name).map .bool)) :
      ∃ b, (Json.record (signedFields P query context)).field name = some (.bool b) := by
    obtain ⟨v, hv⟩ := h _ (flag_signed name hn)
    have hf := signedFields_field (P := P) query context name
    rw [hl] at hf
    obtain ⟨b, -, rfl⟩ := Option.map_eq_some_iff.mp (hf.symm.trans hv)
    exact ⟨b, hv⟩
  have hnumber {name : String} (hn : .key name ∈ numberFields)
      (hl : (signedFields P query context).lookup name = some ((query.number P name).map .number)) :
      ∃ x, valueAt (.record (signedFields P query context)) (.key name) = some (.number x) := by
    obtain ⟨v, hv⟩ := h _ (number_signed _ hn)
    have hf := signedFields_field (P := P) query context name
    rw [hl] at hf
    obtain ⟨x, -, rfl⟩ := Option.map_eq_some_iff.mp (hf.symm.trans hv)
    exact ⟨x, hv⟩
  constructor
  · intro name hn
    have hn' := hn
    simp only [flagNames, List.mem_cons, List.not_mem_nil, or_false] at hn'
    rcases hn' with rfl | rfl | rfl | rfl | rfl | rfl | rfl | rfl | rfl <;> exact hbool hn rfl
  · intro f hf
    have hf' := hf
    simp only [numberFields, List.mem_cons, List.not_mem_nil, or_false] at hf'
    rcases hf' with rfl | rfl | rfl | rfl
    · exact hnumber hf rfl
    · exact hnumber hf rfl
    · obtain ⟨v, hv⟩ := h .order (by decide)
      have horder : (Json.record (signedFields P query context)).field "order" = some (.record
          [("id", (query.number P "order").map .number),
            ("merchant_order_id", some (.string ("webaudit:" ++ context)))]) :=
        signedFields_field query context "order"
      have hid : valueAt (.record (signedFields P query context)) .order = (query.number P "order").map .number := by
        unfold valueAt
        rw [horder]
        refine (Json.field_record ?_ "id").trans rfl
        exact (show List.Nodup ["id", "merchant_order_id"] by decide)
      obtain ⟨x, -, rfl⟩ := Option.map_eq_some_iff.mp (hid.symm.trans hv)
      exact ⟨x, hv⟩
    · exact hnumber hf rfl

/-- The documented types. The browser's return has them whatever it is made of. -/
def Arrival.WellTyped : Arrival → Prop
  | .webhook body _ => ∀ tx, body.bind callbackObject = some tx → Billing.WellTyped tx
  | .paymentReturn _ _ => True

/-- A signed transaction behind every event. -/
theorem accepted_signed {a : Arrival} (h : a.Accepted P e) (ht : a.WellTyped) :
    ∃ tx message signature, a.transaction P = some tx ∧ a.message P = some message ∧ a.signature = some signature ∧
      fromHex signature.toList = P.hmac P.hmacSecret message ∧ Mapped P tx e ∧ Signed tx ∧
      message.toList = transactionFields.flatMap fun f => (textOf tx f).toList := by
  obtain ⟨payload, tx, message, signature, hp, htx, hm, hs, hhmac, hmapped⟩ := accepted_some h
  obtain ⟨tx', htx', hpresent, htext⟩ := hmacString_some hm
  obtain rfl : tx = tx' := Option.some.inj (htx.symm.trans htx')
  have htyped : Billing.WellTyped tx := by
    cases a with
    | webhook body headers =>
      refine ht tx ?_
      rw [show body = some payload from hp]
      exact htx
    | paymentReturn query payments =>
      obtain ⟨order, -, hp⟩ := Option.bind_eq_some_iff.mp hp
      obtain ⟨pending, -, rfl⟩ := Option.map_eq_some_iff.mp hp
      obtain rfl : Json.record (signedFields P query (P.encode pending.context)) = tx := Option.some.inj htx
      exact return_typed fun f hf => present_of_signed (hpresent f hf)
  obtain ⟨b, hb, -⟩ := hmapped.success
  refine ⟨tx, message, signature, ?_, ?_, hs, hhmac, hmapped, ⟨hpresent, htyped, hmapped.currency, b, hb⟩, htext⟩
  · unfold Arrival.transaction
    rw [hp]
    exact htx
  · unfold Arrival.message
    rw [hp]
    exact hm

/-- The id of an event is the text that was signed. -/
theorem idText_textOf {id : String} (h : idText (valueAt tx f) = some id)
    (hp : signedText tx f = some (textOf tx f)) : textOf tx f = id := by
  obtain ⟨v, hv⟩ := present_of_signed hp
  rw [textOf_eq hv hp]
  rw [hv] at h
  cases v <;> first | exact Option.some.inj h | cases h

theorem Same.eq (h : Same tx tx' f) : textOf tx f = textOf tx' f := String.toList_inj.mp h

/-- Equal flags are equal booleans. -/
theorem Signed.flag_eq (h : Signed tx) (h' : Signed tx') {name : String} (hn : name ∈ flagNames)
    (hs : Same tx tx' (.key name)) : tx.field name = tx'.field name := by
  obtain ⟨b, hb⟩ := h.typed.flags name hn
  obtain ⟨b', hb'⟩ := h'.typed.flags name hn
  have ht := textOf_eq (f := .key name) hb (h.present _ (flag_signed name hn))
  have ht' := textOf_eq (f := .key name) hb' (h'.present _ (flag_signed name hn))
  obtain rfl : b = b' := text_bool_inj (ht.symm.trans (hs.eq.trans ht'))
  exact hb.trans hb'.symm

/-- Equal texts of an amount are equal amounts. -/
theorem amount_eq {m m' : ℤ} (h : signedText tx (.key "amount_cents") = some (textOf tx (.key "amount_cents")))
    (h' : signedText tx' (.key "amount_cents") = some (textOf tx' (.key "amount_cents")))
    (hs : Same tx tx' (.key "amount_cents")) (hm : microsFromPiasters (tx.field "amount_cents") = some m)
    (hm' : microsFromPiasters (tx'.field "amount_cents") = some m') : m = m' := by
  have hnumber : ∀ {t : Json} {k : ℤ}, microsFromPiasters (t.field "amount_cents") = some k →
      ∃ x, t.field "amount_cents" = some (.number x) := by
    intro t k hk
    unfold microsFromPiasters at hk
    split at hk
    · rename_i x hx
      exact ⟨x, hx⟩
    · cases hk
  obtain ⟨x, hx⟩ := hnumber hm
  obtain ⟨x', hx'⟩ := hnumber hm'
  have ht := textOf_eq (f := .key "amount_cents") hx h
  have ht' := textOf_eq (f := .key "amount_cents") hx' h'
  obtain rfl : x = x' := by
    have htext : x.text = x'.text := ht.symm.trans (hs.eq.trans ht')
    cases x
    cases x'
    cases htext
    rfl
  rw [hx] at hm
  rw [hx'] at hm'
  exact Option.some.inj (hm.symm.trans hm')

/-! ### Events that grant nothing -/

variable {plans : String → Option Plan} {number : String → Option ℤ} {pc : PaymentPc}

/-- The calls that an event makes which is no success. -/
def PaymentPc.idle : PaymentPc → Bool
  | .insert | .lookup | .read _ | .transition _ _ | .finalize | .returned _ | .threw _ => true
  | _ => false

/-- Such a call touches neither credits nor subscription, and leads to such a call. -/
theorem idle_step (ht : e.type ≠ .paymentSucceeded) (hpc : pc.idle = true) (clock : ℤ) (s : Tables) :
    (PaymentPc.step plans number e clock pc s).1.idle = true ∧
      (PaymentPc.step plans number e clock pc s).2.store.ledger = s.store.ledger ∧
      (PaymentPc.step plans number e clock pc s).2.store.subscription = s.store.subscription := by
  have heffect : e.effect.idle = true := by
    unfold PaymentEvent.effect
    split <;> rfl
  cases pc with
  | insert =>
    unfold PaymentPc.step
    dsimp only
    split
    · exact ⟨rfl, rfl, rfl⟩
    · exact ⟨heffect, rfl, rfl⟩
  | lookup =>
    unfold PaymentPc.step
    dsimp only
    split
    · exact ⟨rfl, rfl, rfl⟩
    · exact ⟨heffect, rfl, rfl⟩
  | read status =>
    unfold PaymentPc.step
    dsimp only
    split
    · exact ⟨rfl, rfl, rfl⟩
    · split
      · exact ⟨rfl, rfl, rfl⟩
      · split
        · unfold PaymentEvent.matched
          rw [if_neg ht]
          exact ⟨rfl, rfl, rfl⟩
        · exact ⟨rfl, rfl, rfl⟩
  | transition id status =>
    have hstore := transition_store s id status
    exact ⟨rfl, congrArg Store.ledger hstore, congrArg Store.subscription hstore⟩
  | finalize =>
    unfold PaymentPc.step
    dsimp only
    split
    · exact ⟨rfl, rfl, rfl⟩
    · split <;> exact ⟨rfl, rfl, rfl⟩
  | returned applied => exact ⟨rfl, rfl, rfl⟩
  | threw err => exact ⟨rfl, rfl, rfl⟩
  | loadPlan _ => cases hpc
  | subscribe _ _ _ => cases hpc
  | reload _ => cases hpc
  | entitle _ _ => cases hpc
  | freePlan _ _ => cases hpc
  | purchase _ _ => cases hpc
  | receipt _ => cases hpc

/-- A call of `applyVerifiedPaymentEvent` goes from one database call to the next, whatever the
clock and the tables are at each of them. -/
def Goes (plans : String → Option Plan) (number : String → Option ℤ) (event : PaymentEvent) (pc : PaymentPc)
    (at' : ℤ × Tables) (pc' : PaymentPc) : Prop :=
  (PaymentPc.step plans number event at'.1 pc at'.2).1 = pc'

theorem idle_reached (ht : e.type ≠ .paymentSucceeded) (h : Reaches (Goes plans number e) .insert pc) : pc.idle = true :=
  h.inv (I := fun pc => pc.idle = true) rfl fun _ x _ hpc hstep => hstep ▸ (idle_step ht hpc x.1 x.2).1

/-! ### What is pinned down -/

/-- A text that is the printed form of a natural number. -/
def plainNumber (text : String) : Option Number :=
  if h : (text.toList ≠ [] ∧ text.toList.all isNumberLetter = true) ∧ toString (decimal text.toList) = text then
    some ⟨text, h.1⟩
  else none

/-- The text signed with a payment of one pound, and its HMAC-SHA512 under the key `secret`. -/
def signedMessage : String :=
  "1002026-09-01T10:00EGPfalsefalse512truefalsefalsefalsetruefalse79false2346Visacardtrue"

def signedDigest : String :=
  "28a314d5ed48308e6e63b44668a9ef9a367aff1f9ce383cc80f4c5b67c9459340b142d0eb8bf4865b0283d7b109efecb1d72928c323239001466d41318d93203"

/-- A user's checkout for 9 credits, and the form it travels in. -/
def checkout : CheckoutContext := ⟨"u", "credits", [("credits", "9")]⟩

def checkoutText : String :=
  "eyJ1c2VySWQiOiJ1Iiwia2luZCI6ImNyZWRpdHMiLCJtZXRhZGF0YSI6eyJjcmVkaXRzIjoiOSJ9fQ"

def sandbox : Paymob where
  hmac key message := if key = "secret" ∧ message = signedMessage then fromHex signedDigest.toList else []
  number := plainNumber
  encode context := if context = checkout then checkoutText else ""
  decode text :=
    if text = checkoutText then
      some (.object [("userId", .string "u"), ("kind", .string "credits"), ("metadata", .object [("credits", .string "9")])])
    else none
  hmacSecret := "secret"
  integrationId := "12"

/-- The transaction as the browser brings it back, its first digits split in this way. -/
def returned (amount createdAt : String) : Arrival :=
  .paymentReturn
    ([("amount_cents", amount), ("created_at", createdAt), ("currency", "EGP"), ("error_occured", "false"),
      ("has_parent_transaction", "false"), ("id", "5"), ("integration_id", "12"), ("is_3d_secure", "true"),
      ("is_auth", "false"), ("is_capture", "false"), ("is_refunded", "false"), ("is_standalone_payment", "true"),
      ("is_voided", "false"), ("order", "7"), ("owner", "9"), ("pending", "false"), ("source_data.pan", "2346"),
      ("source_data.sub_type", "Visa"), ("source_data.type", "card"), ("success", "true"),
      ("hmac", signedDigest)].map fun p => (p.1, .text p.2))
    [⟨"u", "credits", "7", 1000000, .PENDING, checkout.metadata, 0⟩]

/-- The event it is mapped to. -/
def reported (amountMicros : ℤ) : PaymentEvent :=
  ⟨"5", .paymentSucceeded, "7", "u", amountMicros, ("kind", "credits") :: checkout.metadata⟩

/-- The same transaction, as the provider posts it. -/
def posted : Arrival :=
  .webhook ((returned "100" "2026-09-01T10:00").payload sandbox)
    fun header => if header = "x-paymob-hmac" then some signedDigest else none

theorem isSha512Hex_ofList {cs : List Char} (hlength : cs.length = 128) (hdigits : cs.all isHexDigit = true) :
    isSha512Hex (String.ofList cs) = true := by
  unfold isSha512Hex
  rw [String.toList_ofList, hlength, hdigits]
  rfl

set_option maxRecDepth 2000 in
theorem signedDigest_hex : isSha512Hex signedDigest = true := isSha512Hex_ofList rfl rfl

/-- What carries the signed text and its digest is accepted as what it is mapped to. -/
theorem accepted_of_message {a : Arrival} {e : PaymentEvent} (hmessage : a.message sandbox = some signedMessage)
    (hsignature : a.signature = some signedDigest) (hevent : (a.transaction sandbox).bind (transactionEvent sandbox) = some e) :
    a.Accepted sandbox e := by
  obtain ⟨payload, hpayload, hmessage⟩ := Option.bind_eq_some_iff.mp hmessage
  unfold Arrival.transaction at hevent
  rw [hpayload, Option.bind_some] at hevent
  have hhmac : sandbox.hmac sandbox.hmacSecret signedMessage = fromHex signedDigest.toList := by
    unfold sandbox
    dsimp only
    exact if_pos ⟨rfl, rfl⟩
  have hverify : verifyPaymobTransactionHmac sandbox payload (some signedDigest) = true := by
    unfold verifyPaymobTransactionHmac
    dsimp only
    rw [if_pos signedDigest_hex, hmessage]
    dsimp only
    rw [hhmac, decide_eq_true rfl]
  unfold Arrival.Accepted Arrival.verification verifyWebhook
  rw [hpayload, hsignature]
  dsimp only
  rw [if_pos hverify, hevent]

/-- Split either way, the digits make the same text, and are mapped to the amount they split off. -/
theorem returned_reads :
    (returned "100" "2026-09-01T10:00").message sandbox = some signedMessage ∧
      ((returned "100" "2026-09-01T10:00").transaction sandbox).bind (transactionEvent sandbox) = some (reported 1000000) ∧
      (returned "1002" "026-09-01T10:00").message sandbox = some signedMessage ∧
      ((returned "1002" "026-09-01T10:00").transaction sandbox).bind (transactionEvent sandbox) = some (reported 10020000) := by
  decide

theorem returned_message : (returned "100" "2026-09-01T10:00").message sandbox = some signedMessage := returned_reads.1

theorem returned_accepted : (returned "100" "2026-09-01T10:00").Accepted sandbox (reported 1000000) :=
  accepted_of_message returned_message rfl returned_reads.2.1

theorem posted_wellTyped : posted.WellTyped := by
  intro tx htx
  obtain ⟨tx', -, -, htx', -, -, -, -, hsigned, -⟩ := accepted_signed returned_accepted trivial
  obtain rfl : tx = tx' := Option.some.inj (htx.symm.trans htx')
  exact hsigned.typed

end WebAudit.Billing
