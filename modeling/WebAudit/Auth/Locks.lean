import WebAudit.Auth.System
import WebAudit.Lib.Rows

/-!
# What a call has locked

Calls are in each other's way only through the rows they lock, and a step of one leaves to the others
what they have locked and what they have seen (`Change.Allowed.leaves`). So what a call knows of the
tables when it is at a statement is there whatever the others do (`holds_step`).
-/

namespace WebAudit.Auth

open WebAudit.Lib

variable {Password Hash : Type} {p : Platform Password Hash} {s s' : State Password Hash} {a : Action Password}
  {me other : ℕ} {call call' : Call Password Hash} {change : Change Hash}

/-! ### What others leave -/

/-- What a step of another call leaves to `me`. -/
structure Leaves (me : ℕ) (s s' : State Password Hash) : Prop where
  refreshTokens : Spares me unrevoked s.refreshTokens s'.refreshTokens
  emailTokens : ∀ q : EmailToken → Bool, (∀ usedAt row, q (use usedAt row) = true → q row = true) →
    Spares me q s.emailTokens s'.emailTokens
  userLock : s.userLock = some me → s'.userLock = some me
  /-- New links for verification come from who has locked the user. -/
  verify : ∀ (i : ℕ) u, s.emailTokens.length ≤ i → s'.emailTokens[i]? = some u → u.row.purpose = .verify →
    s.userLock ≠ some me

/-- What is stored comes from the call that stores it, which has locked what it needs. -/
structure Writes.Allowed (s : State Password Hash) (me : ℕ) (call : Call Password Hash) (w : Writes Hash) : Prop where
  verify : ∀ row, w.emailToken = some row → row.purpose = .verify → s.userLock = some me ∧
    ∃ pendingToken usedAt seen expiresAt createdAt,
      call = .resendVerification pendingToken (.issuing (.committing usedAt seen expiresAt createdAt))
  reset : ∀ row, w.emailToken = some row → row.purpose = .reset →
    ∃ usedAt seen expiresAt createdAt, call = .requestReset (.issuing (.committing usedAt seen expiresAt createdAt))
  login : ∀ row checked, w.refreshToken = some row → row.origin = .login checked →
    ∃ password, call = .login password (.creating checked)
  rotation : ∀ row token, w.refreshToken = some row → row.origin = .rotation token →
    Held unrevoked s.refreshTokens me token ∧ w.revokedAt.isSome = true

/-- What a call must have locked for this. -/
def Change.Allowed (s : State Password Hash) (me : ℕ) (call : Call Password Hash) : Change Hash → Prop
  | .stays => True
  | .locksEmailToken i => ∀ u, s.emailTokens[i]? = some u → u.xmax = none
  | .locksRefreshToken i => ∀ u, s.refreshTokens[i]? = some u → u.xmax = none
  | .locksUser => s.userLock = none
  | .commits w => w.Allowed s me call

theorem unrevoked_revoke {revokedAt : Option ℤ} {row : RefreshToken} (h : unrevoked (revoke revokedAt row) = true) :
    unrevoked row = true := by
  unfold unrevoked revoke at h
  unfold unrevoked
  cases revokedAt <;> simp_all

theorem unrevoked_revoke_some (revokedAt : ℤ) (row : RefreshToken) : unrevoked (revoke (some revokedAt) row) = false := rfl

theorem unused_use {usedAt : Option ℤ} {row : EmailToken} (h : unused (use usedAt row) = true) : unused row = true := by
  unfold unused use at h
  unfold unused
  cases usedAt <;> simp_all

theorem unused_use_some (usedAt : ℤ) (row : EmailToken) : unused (use (some usedAt) row) = false := rfl

theorem outstanding_iff {purpose : Purpose} {row : EmailToken} :
    outstanding purpose row = true ↔ row.purpose = purpose ∧ unused row = true := by
  simp [outstanding]

theorem outstanding_use {purpose : Purpose} {usedAt : Option ℤ} {row : EmailToken} (h : outstanding purpose (use usedAt row) = true) :
    outstanding purpose row = true := by
  obtain ⟨hpurpose, hunused⟩ := outstanding_iff.mp h
  exact outstanding_iff.mpr ⟨hpurpose, unused_use hunused⟩

theorem spares_insertSome {ρ : Type} {table : Table ρ} {q : ρ → Bool} {row : Option ρ} : Spares me q table (insertSome table row) := by
  cases row with
  | none => exact .refl
  | some row => exact spares_insert

theorem insertSome_length {ρ : Type} {table : Table ρ} {row : Option ρ} : table.length ≤ (insertSome table row).length := by
  cases row with
  | none => exact le_rfl
  | some row => exact insert_length.ge.trans' (Nat.le_succ _)

/-- What is new in a table. -/
theorem insertSome_cases {ρ : Type} (table : Table ρ) {row : Option ρ} {i : ℕ} {u : Tuple ρ}
    (h : (insertSome table row)[i]? = some u) :
    (i = table.length ∧ row = some u.row) ∨ i < table.length ∧ table[i]? = some u := by
  cases row with
  | none => exact .inr ⟨(List.getElem?_eq_some_iff.mp h).1, h⟩
  | some row =>
    rcases insert_cases h with ⟨hi, rfl⟩ | h
    · exact .inl ⟨hi, rfl⟩
    · exact .inr h

/-- **A step leaves to the others what is theirs.** -/
theorem Change.Allowed.leaves (h : change.Allowed s other call) (hne : other ≠ me) : Leaves me s (s.change other change) := by
  have hsame (i : ℕ) (u : Tuple EmailToken) (hi : s.emailTokens.length ≤ i) (hu : s.emailTokens[i]? = some u) : False :=
    absurd (List.getElem?_eq_some_iff.mp hu).1 (not_lt.mpr hi)
  cases change with
  | stays => exact ⟨.refl, fun _ _ => .refl, id, fun i u hi hu => (hsame i u hi hu).elim⟩
  | locksEmailToken i =>
    refine ⟨.refl, fun _ _ => spares_lock h, id, fun j u hj hu => ?_⟩
    exact absurd (List.getElem?_eq_some_iff.mp hu).1 (not_lt.mpr (by simpa [State.change] using hj))
  | locksRefreshToken i => exact ⟨spares_lock h, fun _ _ => .refl, id, fun i u hi hu => (hsame i u hi hu).elim⟩
  | locksUser =>
    refine ⟨.refl, fun _ _ => .refl, fun hlock => ?_, fun i u hi hu => (hsame i u hi hu).elim⟩
    cases hlock.symm.trans h
  | commits w =>
    refine ⟨(spares_commit hne fun _ => unrevoked_revoke).trans spares_insertSome,
      fun q hq => (spares_commit hne (hq w.usedAt)).trans spares_insertSome, fun hlock => ?_, fun i u hi hu hverify hlock => ?_⟩
    · refine (if_neg ?_).trans hlock
      rw [hlock]
      exact fun heq => hne (Option.some.inj heq).symm
    · rcases insertSome_cases _ hu with ⟨-, hrow⟩ | ⟨hlt, -⟩
      · exact hne (Option.some.inj ((h.verify u.row hrow hverify).1.symm.trans hlock))
      · rw [commit_length] at hlt
        exact absurd hlt (not_lt.mpr hi)

/-! ### What a call knows -/

/-- How many links the snapshot had in which they were retired. -/
def IssuePc.seen : IssuePc → ℕ
  | .superseding _ cursor => cursor.seen
  | .creating _ seen | .committing _ seen _ _ => seen

/-- The links it has seen are retired. -/
def IssuePc.Holds (s : State Password Hash) (me : ℕ) (purpose : Purpose) : IssuePc → Prop
  | .superseding _ cursor => Swept (outstanding purpose) s.emailTokens me cursor
  | .creating _ seen | .committing _ seen _ _ => Swept (outstanding purpose) s.emailTokens me ⟨[], seen⟩

/-- There is no newer link for verification. -/
def Latest (s : State Password Hash) (seen : ℕ) : Prop := ∀ (i : ℕ) u, seen ≤ i → s.emailTokens[i]? = some u → u.row.purpose ≠ .verify

/-- What is so when a call is at this statement. -/
def Call.Holds (s : State Password Hash) (me : ℕ) : Call Password Hash → Prop
  | .refresh raw (.creating _) | .refresh raw (.committing _ _) => Held unrevoked s.refreshTokens me raw
  | .refresh _ (.revoking _ cursor) => Swept unrevoked s.refreshTokens me cursor
  | .requestReset (.issuing pc) => pc.Holds s me .reset
  | .completeReset raw _ (.updatingUser _ _) | .completeReset raw _ (.updatedUser _ _) => Held unused s.emailTokens me raw
  | .completeReset raw _ (.revoking _ _ _ cursor) => Held unused s.emailTokens me raw ∧ Swept unrevoked s.refreshTokens me cursor
  | .verifyEmail raw (.updatingUser _) | .verifyEmail raw (.committing _) => Held unused s.emailTokens me raw
  | .resendVerification _ .cooling | .resendVerification _ .retiring => s.userLock = some me
  | .resendVerification _ (.issuing pc) => s.userLock = some me ∧ pc.Holds s me .verify ∧ Latest s pc.seen
  | _ => True

theorem IssuePc.Holds.leaves {purpose : Purpose} {pc : IssuePc} (h : pc.Holds s me purpose) (hleaves : Leaves me s s') :
    pc.Holds s' me purpose := by
  have hspares := hleaves.emailTokens (outstanding purpose) fun _ _ => outstanding_use
  cases pc with
  | superseding usedAt cursor => exact Swept.spares h hspares
  | creating usedAt seen => exact Swept.spares h hspares
  | committing usedAt seen expiresAt createdAt => exact Swept.spares h hspares

theorem Latest.leaves {seen : ℕ} (h : Latest s seen) (hlock : s.userLock = some me) (hleaves : Leaves me s s') : Latest s' seen := by
  intro i u hi hu hverify
  by_cases hold : i < s.emailTokens.length
  · obtain ⟨v, hv, -, hpurpose⟩ :=
      (hleaves.emailTokens (fun row => row.purpose == .verify) fun _ _ => id).each i u hold hu
    exact h i v hi hv (by simpa using hpurpose (by simpa using hverify))
  · exact hleaves.verify i u (not_lt.mp hold) hu hverify hlock

/-- **What a call knows is left to it.** -/
theorem Call.Holds.leaves (h : call.Holds s me) (hleaves : Leaves me s s') : call.Holds s' me := by
  have hunused := hleaves.emailTokens unused fun _ _ => unused_use
  cases call with
  | login password pc => trivial
  | logout raw pc => trivial
  | refresh raw pc =>
    cases pc with
    | creating revokedAt => exact Held.spares h hleaves.refreshTokens
    | committing revokedAt expiresAt => exact Held.spares h hleaves.refreshTokens
    | revoking revokedAt cursor => exact Swept.spares h hleaves.refreshTokens
    | _ => trivial
  | requestReset pc =>
    cases pc with
    | issuing pc => exact IssuePc.Holds.leaves h hleaves
    | _ => trivial
  | completeReset raw newPassword pc =>
    cases pc with
    | updatingUser hash usedAt => exact Held.spares h hunused
    | updatedUser hash usedAt => exact Held.spares h hunused
    | revoking hash usedAt revokedAt cursor => exact ⟨h.1.spares hunused, h.2.spares hleaves.refreshTokens⟩
    | _ => trivial
  | verifyEmail raw pc =>
    cases pc with
    | updatingUser now => exact Held.spares h hunused
    | committing now => exact Held.spares h hunused
    | _ => trivial
  | resendVerification pendingToken pc =>
    cases pc with
    | cooling => exact hleaves.userLock h
    | retiring => exact hleaves.userLock h
    | issuing pc => exact ⟨hleaves.userLock h.1, h.2.1.leaves hleaves, h.2.2.leaves h.1 hleaves⟩
    | _ => trivial

/-! ### A call's own step -/

/-- What a call may do, and what it knows then. -/
def Knows (s : State Password Hash) (me : ℕ) (call : Call Password Hash) (change : Change Hash) (call' : Call Password Hash) : Prop :=
  change.Allowed s me call ∧ call'.Holds (s.change me change) me

theorem allowed_commits {w : Writes Hash} (hemail : w.emailToken = none) (hrefresh : w.refreshToken = none) :
    (Change.commits w).Allowed s me call where
  verify _ h := nomatch hemail.symm.trans h
  reset _ h := nomatch hemail.symm.trans h
  login _ _ h := nomatch hrefresh.symm.trans h
  rotation _ _ h := nomatch hrefresh.symm.trans h

theorem login_knows {password : Password} {pc pc' : LoginPc} (h : Auth.login p s password pc = some (pc', change)) :
    Knows s me (.login password pc) change (.login password pc') := by
  cases pc with
  | start =>
    unfold Auth.login at h
    dsimp only at h
    split at h
    · cases h
      exact ⟨trivial, trivial⟩
    split at h <;> cases h <;> exact ⟨trivial, trivial⟩
  | creating checked =>
    cases h
    refine ⟨⟨nofun, nofun, fun row checked hrow hchecked => ?_,
      fun row token hrow htoken => ?_⟩, trivial⟩
    · cases hrow
      cases hchecked
      exact ⟨password, rfl⟩
    · cases hrow
      cases htoken
  | done outcome => cases h

/-- The rows of the sessions that a revocation visits. -/
theorem revoking_knows {cursor cursor' : Cursor} {locks : Bool} {choice : ℕ} (h : Swept unrevoked s.refreshTokens me cursor)
    (hadvance : s.refreshTokens.advance unrevoked cursor choice = some (cursor', locks)) :
    (if locks then Change.locksRefreshToken choice else .stays : Change Hash).Allowed s me call ∧
      Swept unrevoked (s.change me (if locks then .locksRefreshToken choice else .stays)).refreshTokens me cursor' ∧
      (s.change me (if locks then .locksRefreshToken choice else .stays)).emailTokens = s.emailTokens := by
  obtain ⟨hswept, -, hfree⟩ := h.advance hadvance
  cases locks with
  | true => exact ⟨hfree rfl, hswept, rfl⟩
  | false => exact ⟨trivial, hswept, rfl⟩

theorem refresh_knows {raw choice : ℕ} {pc pc' : RefreshPc} (hholds : (Call.refresh raw pc : Call Password Hash).Holds s me)
    (h : Auth.refresh p s raw choice pc = some (pc', change)) : Knows s me (.refresh raw pc) change (.refresh raw pc') := by
  cases pc with
  | start =>
    cases h
    exact ⟨trivial, trivial⟩
  | reading now =>
    unfold Auth.refresh at h
    dsimp only at h
    split at h
    · cases h
      exact ⟨trivial, trivial⟩
    split at h <;> split at h <;> cases h <;> exact ⟨trivial, trivial⟩
  | claiming now =>
    unfold Auth.refresh at h
    dsimp only at h
    split at h <;> cases h <;> exact ⟨trivial, trivial⟩
  | waiting now revokedAt =>
    unfold Auth.refresh at h
    dsimp only at h
    split at h
    · cases h
    · cases h
      exact ⟨trivial, trivial⟩
    · rename_i hvisit
      cases h
      obtain ⟨u, hu, hxmax, hrotatable⟩ := held_lock me hvisit
      refine ⟨fun v hv => ?_, u, hu, hxmax, (Bool.and_eq_true_iff.mp hrotatable).1⟩
      obtain ⟨row, hrow, -⟩ := visit_takes hvisit
      cases hv.symm.trans hrow
      rfl
  | creating revokedAt =>
    cases h
    exact ⟨trivial, hholds⟩
  | committing revokedAt expiresAt =>
    cases h
    refine ⟨⟨nofun, nofun, fun row checked hrow hchecked => ?_,
      fun row token hrow htoken => ?_⟩, trivial⟩
    · cases hrow
      cases hchecked
    · cases hrow
      cases htoken
      exact ⟨hholds, rfl⟩
  | reused =>
    cases h
    exact ⟨trivial, swept_scan⟩
  | revoking revokedAt cursor =>
    unfold Auth.refresh at h
    dsimp only at h
    split at h
    · cases h
      exact ⟨allowed_commits rfl rfl, trivial⟩
    · obtain ⟨⟨cursor', locks⟩, hadvance, heq⟩ := Option.map_eq_some_iff.mp h
      cases heq
      obtain ⟨hallowed, hswept, -⟩ := revoking_knows hholds hadvance
      exact ⟨hallowed, hswept⟩
  | done outcome => cases h

theorem logout_knows {raw : ℕ} {pc pc' : LogoutPc} (h : Auth.logout s raw pc = some (pc', change)) :
    Knows s me (.logout raw pc) change (.logout raw pc') := by
  cases pc with
  | start =>
    unfold Auth.logout at h
    dsimp only at h
    split at h <;> cases h <;> exact ⟨trivial, trivial⟩
  | waiting revokedAt =>
    unfold Auth.logout at h
    dsimp only at h
    split at h
    · cases h
    · cases h
      exact ⟨trivial, trivial⟩
    · rename_i hvisit
      cases h
      refine ⟨fun v hv => ?_, trivial⟩
      obtain ⟨row, hrow, -⟩ := visit_takes hvisit
      cases hv.symm.trans hrow
      rfl
  | committing revokedAt =>
    cases h
    exact ⟨allowed_commits rfl rfl, trivial⟩
  | done outcome => cases h

/-- What a call that issues a link may do, where it has locked the user if the link is for verification. -/
theorem issue_knows {purpose : Purpose} {ttlMs : ℤ} {choice : ℕ} {pc : IssuePc} {pc' : Option IssuePc}
    (hholds : pc.Holds s me purpose) (hverify : purpose = .verify → s.userLock = some me ∧
      ∃ pendingToken, call = .resendVerification pendingToken (.issuing pc))
    (hreset : purpose = .reset → call = .requestReset (.issuing pc)) (h : issue s purpose ttlMs choice pc = some (pc', change)) :
    change.Allowed s me call ∧ ∀ pc'', pc' = some pc'' → pc''.Holds (s.change me change) me purpose ∧ pc''.seen = pc.seen ∧
      (s.change me change).userLock = s.userLock ∧ (s.change me change).emailTokens.rows = s.emailTokens.rows := by
  cases pc with
  | superseding usedAt cursor =>
    unfold issue at h
    dsimp only at h
    split at h
    · rename_i hnil
      cases h
      refine ⟨trivial, fun pc'' hpc'' => ?_⟩
      cases hpc''
      obtain ⟨todo, seen⟩ := cursor
      obtain rfl : todo = [] := hnil
      exact ⟨hholds, rfl, rfl, rfl⟩
    · obtain ⟨⟨cursor', locks⟩, hadvance, heq⟩ := Option.map_eq_some_iff.mp h
      cases heq
      obtain ⟨hswept, hseen, hfree⟩ := Swept.advance hholds hadvance
      cases locks with
      | true =>
        refine ⟨hfree rfl, fun pc'' hpc'' => ?_⟩
        cases hpc''
        exact ⟨hswept, hseen, rfl, rows_lock⟩
      | false =>
        refine ⟨trivial, fun pc'' hpc'' => ?_⟩
        cases hpc''
        exact ⟨hswept, hseen, rfl, rfl⟩
  | creating usedAt seen =>
    cases h
    refine ⟨trivial, fun pc'' hpc'' => ?_⟩
    cases hpc''
    exact ⟨hholds, rfl, rfl, rfl⟩
  | committing usedAt seen expiresAt createdAt =>
    cases h
    refine ⟨⟨fun row hrow hpurpose => ?_, fun row hrow hpurpose => ?_, nofun, nofun⟩,
      nofun⟩
    · cases hrow
      obtain ⟨hlock, pendingToken, rfl⟩ := hverify hpurpose
      exact ⟨hlock, pendingToken, usedAt, seen, expiresAt, createdAt, rfl⟩
    · cases hrow
      exact ⟨usedAt, seen, expiresAt, createdAt, hreset hpurpose⟩

theorem requestReset_knows {choice : ℕ} {pc pc' : RequestResetPc} (hholds : (Call.requestReset pc : Call Password Hash).Holds s me)
    (h : Auth.requestReset s choice pc = some (pc', change)) : Knows s me (.requestReset pc) change (.requestReset pc') := by
  cases pc with
  | start =>
    cases h
    exact ⟨trivial, swept_scan⟩
  | issuing pc =>
    obtain ⟨⟨next, change'⟩, hissue, heq⟩ := Option.map_eq_some_iff.mp h
    cases heq
    obtain ⟨hallowed, hnext⟩ := issue_knows hholds nofun (fun _ => rfl) hissue
    refine ⟨hallowed, ?_⟩
    cases next with
    | none => trivial
    | some pc' => exact (hnext pc' rfl).1
  | done outcome => cases h

/-- A link is claimed. -/
theorem claims_knows {q : EmailToken → Bool} {raw : ℕ} (hq : ∀ row, q row = true → unused row = true)
    (hvisit : s.emailTokens.visit q raw = .takes) :
    (Change.locksEmailToken raw : Change Hash).Allowed s me call ∧
      Held unused (s.change me (.locksEmailToken raw : Change Hash)).emailTokens me raw := by
  obtain ⟨u, hu, hxmax, hrow⟩ := held_lock me hvisit
  refine ⟨fun v hv => ?_, u, hu, hxmax, hq _ hrow⟩
  obtain ⟨row, hrow, -⟩ := visit_takes hvisit
  cases hv.symm.trans hrow
  rfl

theorem unused_of_claimable {now : ℤ} (row : EmailToken) (h : claimable now row = true) : unused row = true :=
  (Bool.and_eq_true_iff.mp h).1

theorem completeReset_knows {raw choice : ℕ} {newPassword : Password} {pc pc' : CompleteResetPc Hash}
    (hholds : (Call.completeReset raw newPassword pc).Holds s me)
    (h : Auth.completeReset p s raw newPassword choice pc = some (pc', change)) :
    Knows s me (.completeReset raw newPassword pc) change (.completeReset raw newPassword pc') := by
  cases pc with
  | start =>
    unfold Auth.completeReset at h
    dsimp only at h
    split at h <;> cases h <;> exact ⟨trivial, trivial⟩
  | hashing =>
    cases h
    exact ⟨trivial, trivial⟩
  | claiming hash =>
    unfold Auth.completeReset at h
    dsimp only at h
    split at h <;> cases h <;> exact ⟨trivial, trivial⟩
  | waiting hash usedAt =>
    unfold Auth.completeReset at h
    dsimp only at h
    split at h
    · cases h
    · cases h
      exact ⟨trivial, trivial⟩
    · rename_i hvisit
      cases h
      exact claims_knows unused_of_claimable hvisit
  | updatingUser hash usedAt =>
    unfold Auth.completeReset at h
    dsimp only at h
    split at h
    · rename_i hlock
      cases h
      exact ⟨hlock, hholds⟩
    · cases h
  | updatedUser hash usedAt =>
    cases h
    exact ⟨trivial, hholds, swept_scan⟩
  | revoking hash usedAt revokedAt cursor =>
    unfold Auth.completeReset at h
    dsimp only at h
    split at h
    · cases h
      exact ⟨allowed_commits rfl rfl, trivial⟩
    · obtain ⟨⟨cursor', locks⟩, hadvance, heq⟩ := Option.map_eq_some_iff.mp h
      cases heq
      obtain ⟨hallowed, hswept, hemail⟩ := revoking_knows hholds.2 hadvance
      refine ⟨hallowed, ?_, hswept⟩
      rw [hemail]
      exact hholds.1
  | done outcome => cases h

theorem verifyEmail_knows {raw : ℕ} {pc pc' : VerifyEmailPc} (hholds : (Call.verifyEmail raw pc : Call Password Hash).Holds s me)
    (h : Auth.verifyEmail s raw pc = some (pc', change)) : Knows s me (.verifyEmail raw pc) change (.verifyEmail raw pc') := by
  cases pc with
  | start =>
    unfold Auth.verifyEmail at h
    dsimp only at h
    split at h <;> cases h <;> exact ⟨trivial, trivial⟩
  | claiming =>
    unfold Auth.verifyEmail at h
    dsimp only at h
    split at h <;> cases h <;> exact ⟨trivial, trivial⟩
  | waiting now =>
    unfold Auth.verifyEmail at h
    dsimp only at h
    split at h
    · cases h
    · cases h
      exact ⟨trivial, trivial⟩
    · rename_i hvisit
      cases h
      exact claims_knows unused_of_claimable hvisit
  | updatingUser now =>
    unfold Auth.verifyEmail at h
    dsimp only at h
    split at h
    · rename_i hlock
      cases h
      exact ⟨hlock, hholds⟩
    · cases h
  | committing now =>
    cases h
    exact ⟨allowed_commits rfl rfl, trivial⟩
  | done outcome => cases h

theorem resendVerification_knows {pendingToken : Option ℕ} {choice : ℕ} {pc pc' : ResendPc}
    (hholds : (Call.resendVerification pendingToken pc : Call Password Hash).Holds s me)
    (h : Auth.resendVerification s pendingToken choice pc = some (pc', change)) :
    Knows s me (.resendVerification pendingToken pc) change (.resendVerification pendingToken pc') := by
  cases pc with
  | start =>
    unfold Auth.resendVerification at h
    dsimp only at h
    split at h <;> split at h <;> cases h <;> exact ⟨trivial, trivial⟩
  | including pending =>
    unfold Auth.resendVerification at h
    dsimp only at h
    split at h <;> cases h <;> exact ⟨trivial, trivial⟩
  | lockingUser =>
    unfold Auth.resendVerification at h
    dsimp only at h
    split at h
    · rename_i hlock
      cases h
      exact ⟨hlock, rfl⟩
    · cases h
  | cooling =>
    unfold Auth.resendVerification at h
    dsimp only at h
    split at h <;> cases h
    · exact ⟨allowed_commits rfl rfl, trivial⟩
    · exact ⟨trivial, hholds⟩
  | retiring =>
    cases h
    refine ⟨trivial, hholds, swept_scan, fun i u hi hu => ?_⟩
    exact absurd (List.getElem?_eq_some_iff.mp hu).1 (not_lt.mpr hi)
  | issuing pc =>
    obtain ⟨hlock, hpc, hlatest⟩ := hholds
    obtain ⟨⟨next, change'⟩, hissue, heq⟩ := Option.map_eq_some_iff.mp h
    cases heq
    obtain ⟨hallowed, hnext⟩ := issue_knows hpc (fun _ => ⟨hlock, pendingToken, rfl⟩) nofun hissue
    refine ⟨hallowed, ?_⟩
    cases next with
    | none => trivial
    | some pc' =>
      obtain ⟨hholds', hseen, hlock', hrows⟩ := hnext pc' rfl
      refine ⟨hlock'.trans hlock, hholds', fun i u hi hu => ?_⟩
      obtain ⟨v, hv, hrow⟩ : ∃ v, s.emailTokens[i]? = some v ∧ v.row = u.row := by
        have hat := congrArg (·[i]?) hrows
        simpa [Table.rows, hu, eq_comm] using hat
      rw [← hrow]
      exact hlatest i v (hseen ▸ hi) hv
  | done outcome => cases h

/-- **The step of a call**, whatever it is. -/
theorem next_knows {choice : ℕ} (hholds : call.Holds s me) (h : call.next p s choice = some (call', change)) :
    Knows s me call change call' := by
  cases call with
  | login password pc =>
    obtain ⟨⟨pc', change'⟩, hnext, heq⟩ := Option.map_eq_some_iff.mp h
    cases heq
    exact login_knows hnext
  | refresh raw pc =>
    obtain ⟨⟨pc', change'⟩, hnext, heq⟩ := Option.map_eq_some_iff.mp h
    cases heq
    exact refresh_knows hholds hnext
  | logout raw pc =>
    obtain ⟨⟨pc', change'⟩, hnext, heq⟩ := Option.map_eq_some_iff.mp h
    cases heq
    exact logout_knows hnext
  | requestReset pc =>
    obtain ⟨⟨pc', change'⟩, hnext, heq⟩ := Option.map_eq_some_iff.mp h
    cases heq
    exact requestReset_knows hholds hnext
  | completeReset raw newPassword pc =>
    obtain ⟨⟨pc', change'⟩, hnext, heq⟩ := Option.map_eq_some_iff.mp h
    cases heq
    exact completeReset_knows hholds hnext
  | verifyEmail raw pc =>
    obtain ⟨⟨pc', change'⟩, hnext, heq⟩ := Option.map_eq_some_iff.mp h
    cases heq
    exact verifyEmail_knows hholds hnext
  | resendVerification pendingToken pc =>
    obtain ⟨⟨pc', change'⟩, hnext, heq⟩ := Option.map_eq_some_iff.mp h
    cases heq
    exact resendVerification_knows hholds hnext

theorem fails_knows (h : call.fails = some call') : Knows s me call (.commits {}) call' := by
  refine ⟨allowed_commits rfl rfl, ?_⟩
  cases call with
  | login password pc => cases pc <;> cases h <;> trivial
  | refresh raw pc => cases pc <;> cases h <;> trivial
  | logout raw pc => cases pc <;> cases h <;> trivial
  | requestReset pc => cases pc <;> cases h <;> trivial
  | completeReset raw newPassword pc => cases pc <;> cases h <;> trivial
  | verifyEmail raw pc => cases pc <;> cases h <;> trivial
  | resendVerification pendingToken pc => cases pc <;> cases h <;> trivial

/-! ### Steps -/

/-- A step of call `me`, or its failure. -/
inductive Moves (p : Platform Password Hash) (s : State Password Hash) (me : ℕ) (call call' : Call Password Hash) :
    Change Hash → Action Password → Prop where
  | goes {choice : ℕ} {change : Change Hash} (hnext : call.next p s choice = some (call', change)) :
      Moves p s me call call' change (.step me choice)
  | fails (h : call.fails = some call') : Moves p s me call call' (.commits {}) (.fail me)

inductive Happens (p : Platform Password Hash) (s : State Password Hash) : Action Password → State Password Hash → Prop where
  | requests (r : Request Password) : Happens p s (.request r) { s with calls := s.calls ++ [r.call] }
  | moves {a : Action Password} {me : ℕ} {call call' : Call Password Hash} {change : Change Hash} (hcall : s.calls[me]? = some call)
      (hmoves : Moves p s me call call' change a) : Happens p s a { s.change me change with calls := s.calls.set me call' }
  | ticks (ms : ℕ) : Happens p s (.tick ms) { s with now := s.now + ms }

theorem step_happens (h : Step p s a s') : Happens p s a s' := by
  cases a with
  | request r =>
    cases h
    exact .requests r
  | step me choice =>
    unfold Step State.next at h
    dsimp only at h
    split at h
    · cases h
    · rename_i hcall
      obtain ⟨⟨call', change⟩, hnext, rfl⟩ := Option.map_eq_some_iff.mp h
      exact .moves hcall (.goes hnext)
  | fail me =>
    unfold Step State.next at h
    dsimp only at h
    split at h
    · cases h
    · rename_i hcall
      obtain ⟨call', hfails, rfl⟩ := Option.map_eq_some_iff.mp h
      exact .moves hcall (.fails hfails)
  | tick ms =>
    cases h
    exact .ticks ms

theorem Moves.knows (h : Moves p s me call call' change a) (hholds : call.Holds s me) : Knows s me call change call' := by
  cases h with
  | goes hnext => exact next_knows hholds hnext
  | fails hfails => exact fails_knows hfails

/-- What every call knows. -/
def AllHold (s : State Password Hash) : Prop := ∀ (me : ℕ) call, s.calls[me]? = some call → call.Holds s me

theorem allHold_initial (user : User Hash) (now : ℤ) (emailTokens : List EmailToken) :
    AllHold (initial user now emailTokens : State Password Hash) := by
  intro me call hcall
  cases hcall

theorem request_holds (r : Request Password) : (r.call : Call Password Hash).Holds s me := by
  cases r <;> trivial

/-- **Every step keeps what the calls know.** -/
theorem holds_step (h : AllHold s) (hstep : Step p s a s') : AllHold s' := by
  cases step_happens hstep with
  | requests r =>
    intro me call hcall
    rcases getElem?_concat_cases hcall with rfl | hcall
    · exact request_holds r
    · exact h me call hcall
  | @moves _ me call call' change hcall hmoves =>
    obtain ⟨hallowed, hholds⟩ := hmoves.knows (h me call hcall)
    intro other c hc
    rcases getElem?_set_cases hcall hc with ⟨rfl, rfl⟩ | ⟨hne, hc⟩
    · exact hholds
    · have hleaves : Leaves other s (s.change me change) := hallowed.leaves (Ne.symm hne)
      have hkept : c.Holds (s.change me change) other := (h other c hc).leaves hleaves
      exact hkept
  | ticks ms => exact h

end WebAudit.Auth
