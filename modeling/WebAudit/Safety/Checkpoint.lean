import WebAudit.Safety.Admission

/-!
# The checkpoint

`services/safety/admission.ts` and `checkpoint.ts`: what engines call before they act. They go by
what the database functions answer.

## The model

* `Answers` has what each call of theirs comes to, `none` for one that throws. What `isAuthorized`
  reads of the destination and the execution class is in its answer.
* To stop is to abort the caller's controller.
-/

namespace WebAudit.Safety

open WebAudit.Lib

inductive GrantRefusal where
  | REVOKED
  | EXPIRED
  | BUDGET_EXHAUSTED
  | OUT_OF_SCOPE
  | ENVIRONMENT_UNCLASSIFIED_OR_NOT_PERMITTED
  deriving DecidableEq

inductive AuthzResult where
  | AUTHORIZED (grantId : ℕ)
  | NO_MATCHING_GRANT
  | REFUSED (reason : GrantRefusal) (grantId : ℕ)
  deriving DecidableEq

inductive AdmissionResult where
  | GRANTED (grantId : ℕ) (leaseId holderToken : Option ℕ) (replay : Bool)
  | REFUSED (reason : AdmissionRefusalReason)
  | UNAUTHORIZED (reason : GrantRefusal)
  | INTERNAL_ERROR
  deriving DecidableEq

inductive CheckpointStopReason where
  | REFUSED (reason : AdmissionRefusalReason)
  | UNAUTHORIZED (reason : GrantRefusal)
  | LEASE_FENCED
  | STATE_UNCERTAIN
  deriving DecidableEq

inductive CheckpointResult where
  | PROCEED (grantId : ℕ) (leaseId holderToken : Option ℕ)
  | STOP (reason : CheckpointStopReason)
  deriving DecidableEq

structure Lease where
  grantId : ℕ
  leaseId : ℕ
  holderToken : ℕ
  deriving DecidableEq

structure CheckpointRequest where
  executionId : String
  targetId : ℕ
  scanId : Option ℕ
  idempotencyKey : String
  consumesRequest : Bool
  consumesConcurrency : Bool
  lease : Option Lease
  deriving DecidableEq

/-- What the calls of a checkpoint come to. -/
structure Answers where
  /-- `target.findUnique`, its `userId`. -/
  owner : Option (Option ℕ)
  findPendingStop : Option (Option StopKey)
  /-- `target.findUnique` again. -/
  ownerAgain : Option (Option ℕ)
  isAuthorized : Option AuthzResult
  triggerStop : Option Unit
  recordExecutionAuditEvent : Option Unit
  f07Admit : AdmitRequest → Option AdmitReply
  f07_renew_lease : ℕ → ℕ → Option RenewReply
  /-- The transaction commits, the savepoint is released. -/
  commit : Option Unit

/-- What the function comes to, once it has committed. -/
def failClosed {α : Type} (c : Answers) (fn : Option α) (onError : α) : α := (fn.bind fun r => c.commit.map fun _ => r).getD onError

/-- The request that `f07_admit` is called with. -/
def CheckpointRequest.admission (request : CheckpointRequest) (grantId : ℕ) : AdmitRequest where
  targetId := request.targetId
  grantId := grantId
  executionId := request.executionId
  scanId := request.scanId
  idempotencyKey := request.idempotencyKey
  consumeRequest := request.consumesRequest
  consumeConcurrency := request.consumesConcurrency

section Checkpoint

variable (c : Answers) (request : CheckpointRequest)

/-- The call of `f07_admit`. -/
def admitGrant (grantId : ℕ) : Option AdmissionResult :=
  (c.f07Admit (request.admission grantId)).map fun
    | .granted leaseId holderToken replay => .GRANTED grantId leaseId holderToken replay
    | .refused reason => .REFUSED reason

/-- The body of `requestAdmission`, in its transaction. -/
def admitInTx : Option AdmissionResult := do
  match ← c.owner with
  | none => some (.REFUSED .NO_MATCHING_GRANT)
  | some _ =>
    match ← c.findPendingStop with
    | some key =>
      c.recordExecutionAuditEvent
      some (.REFUSED (.KILL_SWITCH_PENDING key))
    | none =>
      match ← c.isAuthorized with
      | .AUTHORIZED grantId | .REFUSED .BUDGET_EXHAUSTED grantId => admitGrant c request grantId
      | .NO_MATCHING_GRANT =>
        c.recordExecutionAuditEvent
        some (.REFUSED .NO_MATCHING_GRANT)
      | .REFUSED reason _ =>
        c.recordExecutionAuditEvent
        some (.UNAUTHORIZED reason)

def requestAdmission : AdmissionResult :=
  if request.executionId = "" || request.idempotencyKey = "" || !request.consumesRequest && !request.consumesConcurrency then
    .INTERNAL_ERROR
  else failClosed c (admitInTx c request) .INTERNAL_ERROR

/-- `renewLease`, `none` for `UNCERTAIN`. -/
def renewLease (lease : Lease) : Option RenewReply :=
  failClosed c ((c.f07_renew_lease lease.leaseId lease.holderToken).map some) none

/-- `none` for `UNCERTAIN`. -/
def pendingStopFor : Option (Option StopKey) := do
  match ← c.owner with
  | none => some none
  | some _ => c.findPendingStop

/-- `none` when the authorization still stands. -/
def recheckAuthorization : Option CheckpointStopReason :=
  let recheck : Option (Option CheckpointStopReason) := do
    match ← c.ownerAgain with
    | none => some (some (.REFUSED .NO_MATCHING_GRANT))
    | some _ =>
      match ← c.isAuthorized with
      | .AUTHORIZED _ | .REFUSED .BUDGET_EXHAUSTED _ => some none
      | .NO_MATCHING_GRANT => some (some (.REFUSED .NO_MATCHING_GRANT))
      | .REFUSED .ENVIRONMENT_UNCLASSIFIED_OR_NOT_PERMITTED _ =>
        c.triggerStop
        some (some (.UNAUTHORIZED .ENVIRONMENT_UNCLASSIFIED_OR_NOT_PERMITTED))
      | .REFUSED reason _ => some (some (.UNAUTHORIZED reason))
  recheck.getD (some .STATE_UNCERTAIN)

/-- The checkpoint of a lease that is held. -/
def checkHeld (lease : Lease) : CheckpointResult :=
  match pendingStopFor c with
  | none => .STOP .STATE_UNCERTAIN
  | some (some key) => .STOP (.REFUSED (.KILL_SWITCH_PENDING key))
  | some none =>
    match recheckAuthorization c with
    | some reason => .STOP reason
    | none =>
      match renewLease c lease with
      | some (.renewed _) => .PROCEED lease.grantId (some lease.leaseId) (some lease.holderToken)
      | some (.stopPending key) => .STOP (.REFUSED (.KILL_SWITCH_PENDING key))
      | some (.grantInvalid reason) => .STOP (.REFUSED reason)
      | none => .STOP .STATE_UNCERTAIN
      | some .fenced => .STOP .LEASE_FENCED

def safetyCheckpoint : CheckpointResult :=
  match request.lease with
  | some lease => checkHeld c lease
  | none =>
    match requestAdmission c request with
    | .GRANTED grantId leaseId holderToken _ => .PROCEED grantId leaseId holderToken
    | .REFUSED reason => .STOP (.REFUSED reason)
    | .UNAUTHORIZED reason => .STOP (.UNAUTHORIZED reason)
    | .INTERNAL_ERROR => .STOP .STATE_UNCERTAIN

end Checkpoint

/-! ### What it goes by -/

section Proceed

variable {c : Answers} {request : CheckpointRequest}

theorem failClosed_eq {α : Type} {fn : Option α} {onError r : α} (h : failClosed c fn onError = r) (hne : r ≠ onError) :
    fn = some r ∧ c.commit = some () := by
  unfold failClosed at h
  rcases fn with _ | r'
  · exact absurd h.symm hne
  · rcases hc : c.commit with _ | u
    · rw [hc] at h
      exact absurd h.symm hne
    · rw [hc] at h
      exact ⟨congrArg some h, rfl⟩

theorem admitGrant_granted {grantId g : ℕ} {leaseId token : Option ℕ} {replay : Bool}
    (h : admitGrant c request grantId = some (.GRANTED g leaseId token replay)) :
    grantId = g ∧ c.f07Admit (request.admission g) = some (.granted leaseId token replay) := by
  obtain ⟨reply, hreply, he⟩ := Option.map_eq_some_iff.mp h
  cases reply with
  | refused reason => cases he
  | granted l t r =>
    cases he
    exact ⟨rfl, hreply⟩

/-- An admission is granted when the database function has granted it. -/
theorem requestAdmission_granted {g : ℕ} {leaseId token : Option ℕ} {replay : Bool}
    (h : requestAdmission c request = .GRANTED g leaseId token replay) :
    c.f07Admit (request.admission g) = some (.granted leaseId token replay) ∧ c.commit = some () := by
  unfold requestAdmission at h
  split at h
  · cases h
  obtain ⟨hgate, hcommit⟩ := failClosed_eq h (by simp)
  refine ⟨?_, hcommit⟩
  unfold admitInTx at hgate
  obtain ⟨owner, -, hgate⟩ := Option.bind_eq_some_iff.mp hgate
  rcases owner with _ | user
  · cases hgate
  obtain ⟨pending, -, hgate⟩ := Option.bind_eq_some_iff.mp hgate
  rcases pending with _ | key
  · obtain ⟨authz, -, hgate⟩ := Option.bind_eq_some_iff.mp hgate
    split at hgate
    · obtain ⟨rfl, hgranted⟩ := admitGrant_granted hgate
      exact hgranted
    · obtain ⟨rfl, hgranted⟩ := admitGrant_granted hgate
      exact hgranted
    · obtain ⟨_, -, hgate⟩ := Option.bind_eq_some_iff.mp hgate
      cases hgate
    · obtain ⟨_, -, hgate⟩ := Option.bind_eq_some_iff.mp hgate
      cases hgate
  · obtain ⟨_, -, hgate⟩ := Option.bind_eq_some_iff.mp hgate
    cases hgate

theorem checkHeld_proceed {lease : Lease} {g : ℕ} {leaseId token : Option ℕ} (h : checkHeld c lease = .PROCEED g leaseId token) :
    (g = lease.grantId ∧ leaseId = some lease.leaseId ∧ token = some lease.holderToken) ∧
      (∃ e, c.f07_renew_lease lease.leaseId lease.holderToken = some (.renewed e)) ∧ c.commit = some () := by
  unfold checkHeld at h
  split at h <;> (try cases h)
  split at h <;> (try cases h)
  split at h <;> cases h
  rename_i hrenew
  obtain ⟨hreply, hcommit⟩ := failClosed_eq hrenew (by simp)
  obtain ⟨reply, hreply, he⟩ := Option.map_eq_some_iff.mp hreply
  cases he
  exact ⟨⟨rfl, rfl, rfl⟩, ⟨_, hreply⟩, hcommit⟩

end Proceed

/-! ### Admissions and the leases they hold -/

/-- **An admission that is granted, and is no replay, holds a lease when it commits**, if it asks for one; a replay changes
no lease and answers with what is stored under its key; a renewal renews a lease that is open. The checkpoint proceeds
with what an admission has granted, or with a lease that has been renewed. -/
theorem admission_holds_lease :
    (∀ (s s' : State) (k : ℕ) (t : Tx), Reaches step .init s → s.txs[k]? = some t → step s (.commit k) s' →
      (∀ r now leaseId token, t.call = some (.admitted r now (.granted leaseId token false)) → r.consumeConcurrency = true →
        ∃ id holder, leaseId = some id ∧ token = some holder ∧ s'.HasLease r.grantId id holder r.executionId (now + leaseMs)) ∧
      (∀ r now leaseId token, t.call = some (.admitted r now (.granted leaseId token true)) →
        (∀ g, SameRows (booksOf s t.saved g) (booksOf s t.work g)) ∧
          ∃ account, s'.accounts[r.grantId]? = some account ∧ account.books = booksOf s t.work r.grantId ∧
            account.books.Stored r.idempotencyKey leaseId token) ∧
      ∀ x e, t.call = some (.renewed (some x) (.renewed e)) →
        e = x.now + leaseMs ∧ ∃ executionId, s'.HasLease x.grantId x.lease.id x.lease.holderToken executionId e) ∧
    ∀ (c : Answers) (request : CheckpointRequest) (g : ℕ) (leaseId token : Option ℕ),
      safetyCheckpoint c request = .PROCEED g leaseId token →
        ((request.lease = none ∧ ∃ replay, c.f07Admit (request.admission g) = some (.granted leaseId token replay)) ∨
        ∃ lease, request.lease = some lease ∧ g = lease.grantId ∧ leaseId = some lease.leaseId ∧ token = some lease.holderToken ∧
          ∃ e, c.f07_renew_lease lease.leaseId lease.holderToken = some (.renewed e)) ∧ c.commit = some () := by
  refine ⟨fun s s' k t h hk hc => ?_, fun c request g leaseId token h => ?_⟩
  · have hs := sound_reachable h
    have hp := (promises_reachable h).call k t
    refine ⟨fun r now leaseId token hcall hn => ?_, fun r now leaseId token hcall => ?_, fun x e hcall => ?_⟩
    · obtain ⟨b, hb, l, hl, rfl, rfl, hopen, hexec, hexpiry⟩ := hp _ hk hcall hn
      exact ⟨_, _, rfl, rfl, hexec ▸ commit_lease hs hk hc (by rw [booksOf_held hb]; exact hl) hopen hexpiry⟩
    · obtain ⟨⟨⟨b, hb, hsame⟩, helse⟩, hstored⟩ := hp _ hk hcall
      obtain ⟨account, ha, -⟩ := (hs.txs k t hk).work.books _ b hb
      obtain ⟨-, account', ha', hbooks⟩ := commit_books hs hk hc (List.getElem?_eq_some_iff.mp ha).1
      refine ⟨fun g => ?_, account', ha', hbooks, hbooks ▸ hstored⟩
      by_cases hg : g = r.grantId
      · rw [hg, booksOf_held hb]
        exact hsame
      · unfold booksOf
        rw [helse g hg]
        exact .refl _
    · obtain ⟨he, hexpiry, -, l, hl, hid, htoken, hopen⟩ := hp _ hk hcall
      have hlease := commit_lease hs hk hc hl hopen (hid ▸ hexpiry)
      rw [hid, htoken] at hlease
      exact ⟨he, _, hlease⟩
  · unfold safetyCheckpoint at h
    split at h
    · rename_i lease hlease
      obtain ⟨⟨hg, hl, ht⟩, hrenewed, hcommit⟩ := checkHeld_proceed h
      exact ⟨.inr ⟨lease, hlease, hg, hl, ht, hrenewed⟩, hcommit⟩
    · rename_i hlease
      split at h <;> cases h
      rename_i hgranted
      obtain ⟨hgate, hcommit⟩ := requestAdmission_granted hgranted
      exact ⟨.inl ⟨hlease, _, hgate⟩, hcommit⟩

/-- A target and a grant, and an admission that is about to commit. -/
def aboutToCommit : List Action := oneLease.dropLast

/-- The answer of the only call. -/
def State.answered (s : State) (r : AdmitRequest) (reply : AdmitReply) : Bool :=
  decide (s.txs.map (·.call) = [some (.admitted r 0 reply)])

theorem State.answered_call {s : State} {r : AdmitRequest} {reply : AdmitReply} (h : s.answered r reply = true) :
    ∃ t, s.txs[0]? = some t ∧ t.call = some (.admitted r 0 reply) := by
  have hcalls := of_decide_eq_true h
  rcases htxs : s.txs with _ | ⟨t, ts⟩
  · rw [htxs] at hcalls
    cases hcalls
  · rw [htxs, List.map_cons] at hcalls
    exact ⟨t, rfl, (List.cons.inj hcalls).1⟩

theorem admission_holds_lease_first : ∃ s s', Reaches step .init s ∧ step s (.commit 0) s' ∧ s'.HasLease 0 32 33 "unit-1" 30000 := by
  obtain ⟨s, hs, hp⟩ := Reaches.exists_of_play next (fun _ _ => true) .init aboutToCommit
    (fun s => s.answered firstRequest (.granted (some 32) (some 33) false) = true ∧ (next s (.commit 0)).isSome = true)
    (by decide)
  obtain ⟨t, hk, hcall⟩ := State.answered_call hp.1
  obtain ⟨s', hc⟩ := Option.isSome_iff_exists.mp hp.2
  obtain ⟨id, holder, hid, hholder, hlease⟩ := (admission_holds_lease.1 s s' 0 t hs.of_guarded hk hc).1 firstRequest 0 _ _ hcall rfl
  cases hid
  cases hholder
  exact ⟨s, s', hs.of_guarded, hc, hlease⟩

/-- A lease is taken and released, and the same request comes again. -/
def releasedAndReplayed : List Action :=
  oneLease ++ [.call 0 (.releaseByToken 32 33)] ++ List.replicate 3 (.run 0) ++ [.commit 0, .call 0 (.admission firstRequest)] ++
    List.replicate 15 (.run 0)

/-- A replay is granted with the lease of the first call, which may have been released. -/
theorem replay_of_released : ¬ ∀ (s s' : State) (k : ℕ) (t : Tx) (r : AdmitRequest) (now : ℤ) (leaseId token : Option ℕ) (replay : Bool),
    Reaches step .init s → s.txs[k]? = some t → step s (.commit k) s' →
    t.call = some (.admitted r now (.granted leaseId token replay)) → r.consumeConcurrency = true →
    ∃ account ∈ s'.accounts, ∃ l ∈ account.books.leases, l.isOpen = true ∧ l.executionId = r.executionId ∧
      token = some l.holderToken ∧ ∃ e, s'.expiry.lookup l.id = some e ∧ s'.clock < e := by
  intro hall
  obtain ⟨s, hs, hp⟩ := Reaches.exists_of_play next (fun _ _ => true) .init releasedAndReplayed
    (fun s => s.answered firstRequest (.granted (some 32) (some 33) true) = true ∧
      (next s (.commit 0)).any (fun s' => s'.accounts.all fun account => account.books.leases.all fun l => !l.isOpen) = true)
    (by decide)
  obtain ⟨t, hk, hcall⟩ := State.answered_call hp.1
  obtain ⟨s', hc, hclosed⟩ := (Option.any_eq_true _ _).mp hp.2
  obtain ⟨account, ha, l, hl, hopen, -⟩ := hall s s' 0 t _ _ _ _ _ hs.of_guarded hk hc hcall rfl
  have := List.all_eq_true.mp (List.all_eq_true.mp hclosed account ha) l hl
  rw [hopen] at this
  cases this

end WebAudit.Safety
