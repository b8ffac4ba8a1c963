import WebAudit.Credits.Operations

/-!
# Credits granted by an operator

`adjustCredits` of `services/credits/adjust.ts`: what the operator asked for is checked, the
user is looked up, and the credits are granted by `grantLot`, all in one transaction. The
entry of the audit log is left out: nothing reads it.
-/

namespace WebAudit.Credits

open WebAudit.Lib

structure AdjustCreditsInput where
  amount : ℤ
  kind : CreditKind
  /-- `none`: the credits never expire. -/
  expiresAt : Option ℤ
  reason : String
  deriving DecidableEq

structure AdjustCreditsResult where
  transactionId : ℕ
  lotId : ℕ
  balanceBefore : CreditBalance
  balanceAfter : CreditBalance
  deriving DecidableEq

/-- What `adjustCredits` throws. -/
inductive AdjustError where
  | invalidCreditAdjustment (message : String)
  | userNotFound
  | credits (e : CreditsError)
  deriving DecidableEq

/-- The characters `trim` removes. -/
def isTrimmed (c : Char) : Bool :=
  c.toNat ∈ [0x9, 0xa, 0xb, 0xc, 0xd, 0x20, 0xa0, 0x1680, 0x2028, 0x2029, 0x202f, 0x205f, 0x3000, 0xfeff] ||
    (0x2000 ≤ c.toNat && c.toNat ≤ 0x200a)

/-- `validate`: the message of the error it throws, if it throws. -/
def AdjustCreditsInput.validate (input : AdjustCreditsInput) : Except String Unit :=
  if input.amount ≤ 0 then .error "amount must be a positive whole number of credits"
  else if input.kind = .PURCHASED ∧ input.expiresAt ≠ none then .error "a PURCHASED grant must never expire"
  else if input.reason.toList.all isTrimmed then .error "reason is required"
  else .ok ()

/-- What it grants. -/
def AdjustCreditsInput.grant (input : AdjustCreditsInput) : GrantInput :=
  { amount := input.amount, kind := input.kind, source := .ADMIN_GRANT, expiresAt := input.expiresAt
    billingEventId := none, reason := some input.reason }

/-- Grant credits to a user; `known` says whether there is one. -/
def adjustCredits (known : Bool) (now : ℤ) (input : AdjustCreditsInput) : Db Ledger AdjustError AdjustCreditsResult :=
  match input.validate with
  | .error message => Db.throw (.invalidCreditAdjustment message)
  | .ok () => Db.transaction do
    if known then do
      let before ← Db.get
      let granted ← Db.within id (fun t _ => t) .credits (grantLot now input.grant)
      let after ← Db.get
      pure ⟨granted.transactionId, granted.lotId, balanceOf before now, balanceOf after now⟩
    else Db.throw .userNotFound

/-- An adjustment that ends with a value is a grant, and one of purchased credits never expires. -/
theorem adjustCredits_ok {known : Bool} {now : ℤ} {input : AdjustCreditsInput} {r : AdjustCreditsResult} {s s' : Ledger}
    (h : (adjustCredits known now input).run s = (.ok r, s')) :
    (input.kind = .PURCHASED → input.expiresAt = none) ∧
      ∃ granted, (grantLot now input.grant).run s = (.ok granted, s') := by
  unfold adjustCredits at h
  rcases hv : input.validate with message | u <;> rw [hv] at h
  · cases h
  constructor
  · intro hk
    unfold AdjustCreditsInput.validate at hv
    split at hv
    · cases hv
    · split at hv
      · cases hv
      · rename_i hne
        by_contra he
        exact hne ⟨hk, he⟩
  · dsimp only at h
    rw [Db.transaction_ok] at h
    split at h
    · rw [Db.run_get_bind] at h
      obtain ⟨granted, u, hm, hr⟩ := Db.bind_ok.mp h
      obtain ⟨t, ht, rfl⟩ := Db.within_ok.mp hm
      rw [Db.run_get_bind] at hr
      cases hr
      exact ⟨granted, ht⟩
    · cases h

theorem adjustCredits_safe (known : Bool) (now : ℤ) (input : AdjustCreditsInput) : Db.Safe (adjustCredits known now input) := by
  unfold adjustCredits
  rcases input.validate with message | u
  · exact Db.safe_throw _
  · exact Db.safe_transaction _

end WebAudit.Credits
