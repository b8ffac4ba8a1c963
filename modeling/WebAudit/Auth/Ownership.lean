import WebAudit.Auth.Accounts

/-!
# An account belongs to the owner of its address

Nobody else should come to hold a session of it (`SessionsOwned`), and there should be one account for an address, and
one identity for a provider's user (`Single`). The second is so in every run. The first is so as long as no link
confirms the address of an account whose password another principal has typed (`Trusted`): a sign-in that joins an
account which nobody has confirmed clears its password, and a link that confirms it does not.
-/

namespace WebAudit.Auth.Accounts

open WebAudit.Lib WebAudit.Lib.Uri

/-! ### Rows that are rewritten -/

section Marks

variable {ρ γ : Type} {ids : List ℕ} {f : ρ → ρ} {g : ρ → γ} {rows : List ρ} {row : ρ} {i : ℕ}

theorem getElem?_markAt : (markAt ids f rows)[i]? = rows[i]?.map fun row => if i ∈ ids then f row else row := by
  unfold markAt
  rw [List.getElem?_mapIdx]

theorem mem_markAt (h : row ∈ markAt ids f rows) : ∃ row₀ ∈ rows, row = row₀ ∨ row = f row₀ := by
  obtain ⟨i, hi⟩ := List.getElem?_of_mem h
  rw [getElem?_markAt] at hi
  obtain ⟨row₀, hrow₀, rfl⟩ := Option.map_eq_some_iff.mp hi
  refine ⟨row₀, List.mem_of_getElem? hrow₀, ?_⟩
  split
  · exact .inr rfl
  · exact .inl rfl

/-- A column that is not rewritten. -/
theorem map_markAt (h : ∀ row, g (f row) = g row) : (markAt ids f rows).map g = rows.map g := by
  refine List.ext_getElem? fun i => ?_
  rw [List.getElem?_map, List.getElem?_map, getElem?_markAt, Option.map_map]
  congr 1
  funext row
  rw [Function.comp_apply]
  split
  · exact h row
  · rfl

end Marks

variable {Principal Password Hash : Type} {p : Parties Principal Password Hash} {s s' : State Principal Password Hash}
  {me x : Principal} {userId : ℕ} {w : Write Principal Hash} {call : Call Password Hash}

/-! ### What is claimed of a state -/

section Claims

variable (p : Parties Principal Password Hash) (s : State Principal Password Hash)

/-- The account's address is the principal's. -/
def OwnedBy (userId : ℕ) (x : Principal) : Prop := ∃ account, s.users[userId]? = some account ∧ p.owner account.email = x

def SessionsOwned : Prop := ∀ session ∈ s.refreshTokens, OwnedBy p s session.userId session.holder

structure Single : Prop where
  accounts : (s.users.map (·.email)).Nodup
  identities : (s.identities.map fun identity => (identity.provider, identity.providerUserId)).Nodup

/-- Only passwords of the principal verify against the hash. -/
def Opens (x : Principal) (hash : Hash) : Prop := ∀ password, p.verifyPassword password hash = true → p.author password = x

/-- The account has no password, or one of its owner's. -/
def OwnPassword (account : Account Hash) : Prop := ∀ hash ∈ account.passwordHash, Opens p (p.owner account.email) hash

/-- A link that this step confirms is of an account without another principal's password. -/
def Trusted : Action Principal Password → Prop
  | .step k _ => ∀ me raw userId now, s.calls[k]? = some (me, .verifyEmail raw (.committing userId now)) →
    (s.emailTokens[raw]?.any fun link => claimable now link.row) = true → ∀ account ∈ s.users[userId]?, OwnPassword p account
  | _ => True

end Claims

/-! ### Accounts are kept -/

theorem ownedBy_append {account : Account Hash} (hs : s'.users = s.users ++ [account]) (h : OwnedBy p s userId x) :
    OwnedBy p s' userId x := by
  obtain ⟨account', haccount', hx⟩ := h
  refine ⟨account', ?_, hx⟩
  rw [hs, List.getElem?_append_left (List.getElem?_eq_some_iff.mp haccount').1]
  exact haccount'

theorem ownedBy_new {account : Account Hash} (hs : s'.users = s.users ++ [account]) : OwnedBy p s' s.users.length (p.owner account.email) :=
  ⟨account, by rw [hs, List.getElem?_concat_length], rfl⟩

theorem ownedBy_markAt {ids : List ℕ} {f : Account Hash → Account Hash} (hs : s'.users = markAt ids f s.users)
    (hf : ∀ account, (f account).email = account.email) (h : OwnedBy p s userId x) : OwnedBy p s' userId x := by
  obtain ⟨account, haccount, rfl⟩ := h
  refine ⟨if userId ∈ ids then f account else account, ?_, ?_⟩
  · rw [hs, getElem?_markAt, haccount, Option.map_some]
  · split
    · rw [hf]
    · rfl

theorem ownedBy_apply (h : OwnedBy p s userId x) : OwnedBy p (s.apply p w) userId x := by
  cases w with
  | registers account registrant => exact ownedBy_append rfl h
  | creates account provider providerUserId => exact ownedBy_append rfl h
  | confirms raw id now => exact ownedBy_markAt rfl (fun _ => rfl) h
  | resets raw id hash usedAt sessions revokedAt => exact ownedBy_markAt rfl (fun _ => rfl) h
  | joins identity sessions => exact ownedBy_markAt rfl (fun _ => rfl) h
  | _ => exact h

/-! ### What is kept -/

/-- What a call has come to know, and to be. -/
def CallSound (p : Parties Principal Password Hash) (s : State Principal Password Hash) (me : Principal) : Call Password Hash → Prop
  | .resendVerification _ (.issuing userId email) => OwnedBy p s userId (p.owner email)
  | .requestReset email (.superseding userId) | .requestReset email (.creating userId _ _) => OwnedBy p s userId (p.owner (normalizeEmail p email))
  | .completeReset _ newPassword pc => p.author newPassword = me ∧
    match pc with
    | .start => True
    | .hashing userId => OwnedBy p s userId me
    | .claiming userId hash | .revoking userId hash _ | .committing userId hash _ _ _ => OwnedBy p s userId me ∧ Opens p me hash
  | .login _ password pc => p.author password = me ∧
    match pc with
    | .start => True
    | .creating userId => OwnedBy p s userId me
  | .refresh _ (.claiming userId _) => OwnedBy p s userId me
  | .signIn profile pc => p.holder profile.provider profile.providerUserId = me ∧
    (profile.emailVerified = true → p.owner (normalizeEmail p profile.email) = me) ∧
    match pc with
    | .start => True
    | .reading | .creating => profile.emailVerified = true
    | .linking userId | .joining userId | .joined userId _ | .issuing userId => OwnedBy p s userId me
  | _ => True

structure Kept (p : Parties Principal Password Hash) (s : State Principal Password Hash) : Prop where
  verified : ∀ account ∈ s.users, account.emailVerifiedAt.isSome = true → OwnPassword p account
  links : ∀ link ∈ s.emailTokens, link.row.purpose ≠ .verifyPending → OwnedBy p s link.userId link.knower
  sessions : SessionsOwned p s
  identities : ∀ identity ∈ s.identities, OwnedBy p s identity.userId (p.holder identity.provider identity.providerUserId)
  calls : ∀ c ∈ s.calls, CallSound p s c.1 c.2

/-- What may be written. -/
def WriteSound (p : Parties Principal Password Hash) (s : State Principal Password Hash) : Write Principal Hash → Prop
  | .nothing | .revokes _ => True
  | .registers account _ => account.emailVerifiedAt = none
  | .confirms _ userId _ => ∀ account ∈ s.users[userId]?, OwnPassword p account
  | .mails _ _ link => OwnedBy p s link.userId link.knower
  | .resets _ userId hash _ _ _ => ∃ x, OwnedBy p s userId x ∧ Opens p x hash
  | .issues session | .rotates _ session => OwnedBy p s session.userId session.holder
  | .links identity | .joins identity _ => OwnedBy p s identity.userId (p.holder identity.provider identity.providerUserId)
  | .creates account provider providerUserId => account.passwordHash = none ∧ p.holder provider providerUserId = p.owner account.email

theorem callSound_mono (hs : ∀ userId x, OwnedBy p s userId x → OwnedBy p s' userId x) (h : CallSound p s me call) : CallSound p s' me call := by
  cases call with
  | register email password pc => trivial
  | verifyEmail raw pc => trivial
  | resendVerification input pc =>
    cases pc with
    | issuing userId email => exact hs _ _ h
    | _ => trivial
  | requestReset email pc =>
    cases pc with
    | start => trivial
    | _ => exact hs _ _ h
  | completeReset raw newPassword pc =>
    refine ⟨h.1, ?_⟩
    cases pc with
    | start => trivial
    | hashing userId => exact hs _ _ h.2
    | _ => exact ⟨hs _ _ h.2.1, h.2.2⟩
  | login email password pc =>
    refine ⟨h.1, ?_⟩
    cases pc with
    | start => trivial
    | creating userId => exact hs _ _ h.2
  | refresh raw pc =>
    cases pc with
    | claiming userId now => exact hs _ _ h
    | _ => trivial
  | signIn profile pc =>
    refine ⟨h.1, h.2.1, ?_⟩
    cases pc with
    | start => trivial
    | reading => exact h.2.2
    | creating => exact h.2.2
    | _ => exact hs _ _ h.2.2
  | done ending => trivial

/-! ### What a commit keeps -/

theorem useLink_userId (usedAt : ℤ) (link : LinkRow Principal) : (useLink usedAt link).userId = link.userId := by
  unfold useLink
  split <;> rfl

theorem useLink_knower (usedAt : ℤ) (link : LinkRow Principal) : (useLink usedAt link).knower = link.knower := by
  unfold useLink
  split <;> rfl

theorem useLink_purpose (usedAt : ℤ) (link : LinkRow Principal) : (useLink usedAt link).row.purpose = link.row.purpose := by
  unfold useLink
  split <;> rfl

theorem revokeSession_userId (revokedAt : ℤ) (session : SessionRow Principal) : (revokeSession revokedAt session).userId = session.userId := by
  unfold revokeSession
  split <;> rfl

theorem revokeSession_holder (revokedAt : ℤ) (session : SessionRow Principal) : (revokeSession revokedAt session).holder = session.holder := by
  unfold revokeSession
  split <;> rfl

/-- A link of a table whose links have been used, or the one that is new. -/
theorem mem_usedLinks {ids : List ℕ} {usedAt : ℤ} {rows : List (LinkRow Principal)} {link : LinkRow Principal} (h : link ∈ markAt ids (useLink usedAt) rows) :
    ∃ link₀ ∈ rows, link.userId = link₀.userId ∧ link.knower = link₀.knower ∧ link.row.purpose = link₀.row.purpose := by
  obtain ⟨link₀, hlink₀, rfl | rfl⟩ := mem_markAt h
  · exact ⟨_, hlink₀, rfl, rfl, rfl⟩
  · exact ⟨link₀, hlink₀, useLink_userId _ _, useLink_knower _ _, useLink_purpose _ _⟩

theorem mem_revokedSessions {ids : List ℕ} {revokedAt : ℤ} {rows : List (SessionRow Principal)} {session : SessionRow Principal}
    (h : session ∈ markAt ids (revokeSession revokedAt) rows) : ∃ session₀ ∈ rows, session.userId = session₀.userId ∧ session.holder = session₀.holder := by
  obtain ⟨session₀, hsession₀, rfl | rfl⟩ := mem_markAt h
  · exact ⟨_, hsession₀, rfl, rfl⟩
  · exact ⟨session₀, hsession₀, revokeSession_userId _ _, revokeSession_holder _ _⟩

section Apply

variable (h : Kept p s)
include h

theorem links_used {ids : List ℕ} {usedAt : ℤ} : ∀ link ∈ markAt ids (useLink usedAt) s.emailTokens, link.row.purpose ≠ .verifyPending →
    OwnedBy p s link.userId link.knower := by
  intro link hlink hpurpose
  obtain ⟨link₀, hlink₀, hid, hknower, hpurpose₀⟩ := mem_usedLinks hlink
  rw [hid, hknower]
  exact h.links link₀ hlink₀ (hpurpose₀ ▸ hpurpose)

theorem sessions_revoked {ids : List ℕ} {revokedAt : ℤ} : ∀ session ∈ markAt ids (revokeSession revokedAt) s.refreshTokens,
    OwnedBy p s session.userId session.holder := by
  intro session hsession
  obtain ⟨session₀, hsession₀, hid, hholder⟩ := mem_revokedSessions hsession
  rw [hid, hholder]
  exact h.sessions session₀ hsession₀

/-- An account that a commit rewrites. -/
theorem verified_markAt {ids : List ℕ} {f : Account Hash → Account Hash}
    (hf : ∀ id ∈ ids, ∀ account ∈ s.users[id]?, (f account).emailVerifiedAt.isSome = true → OwnPassword p (f account)) :
    ∀ account ∈ markAt ids f s.users, account.emailVerifiedAt.isSome = true → OwnPassword p account := by
  intro account haccount hverified
  obtain ⟨i, hi⟩ := List.getElem?_of_mem haccount
  rw [getElem?_markAt] at hi
  obtain ⟨account₀, haccount₀, rfl⟩ := Option.map_eq_some_iff.mp hi
  split at hverified
  · next hid =>
    rw [if_pos hid]
    exact hf i hid account₀ haccount₀ hverified
  · next hid =>
    rw [if_neg hid]
    exact h.verified account₀ (List.mem_of_getElem? haccount₀) hverified

theorem kept_apply (hw : WriteSound p s w) : Kept p (s.apply p w) := by
  have hmono (id : ℕ) (x : Principal) (hid : OwnedBy p s id x) : OwnedBy p (s.apply p w) id x := ownedBy_apply hid
  have hlinks (link : LinkRow Principal) (hlink : link ∈ s.emailTokens) (hpurpose : link.row.purpose ≠ .verifyPending) :=
    hmono _ _ (h.links link hlink hpurpose)
  have hidentities (identity : Identity) (hidentity : identity ∈ s.identities) := hmono _ _ (h.identities identity hidentity)
  have hcalls : ∀ c ∈ s.calls, CallSound p (s.apply p w) c.1 c.2 := fun c hc => callSound_mono hmono (h.calls c hc)
  cases w with
  | nothing => exact h
  | registers account registrant =>
    refine ⟨fun account' haccount' hverified => ?_, fun link hlink hpurpose => ?_, fun session hsession => hmono _ _ (h.sessions session hsession),
      hidentities, hcalls⟩
    · rcases List.mem_append.mp haccount' with haccount' | haccount'
      · exact h.verified account' haccount' hverified
      · obtain rfl := List.mem_singleton.mp haccount'
        rw [show account'.emailVerifiedAt = none from hw] at hverified
        cases hverified
    · rcases List.mem_append.mp hlink with hlink | hlink
      · exact hlinks link hlink hpurpose
      · rcases List.mem_cons.mp hlink with rfl | hlink
        · exact ownedBy_new rfl
        · obtain rfl := List.mem_singleton.mp hlink
          exact absurd rfl hpurpose
  | confirms raw id now =>
    refine ⟨verified_markAt h fun id' hid' account haccount _ => ?_, fun link hlink hpurpose => hmono _ _ (links_used h link hlink hpurpose),
      fun session hsession => hmono _ _ (h.sessions session hsession), hidentities, hcalls⟩
    obtain rfl := List.mem_singleton.mp hid'
    exact hw account haccount
  | mails superseded usedAt link =>
    refine ⟨h.verified, fun link' hlink' hpurpose => ?_, h.sessions, h.identities, h.calls⟩
    rcases List.mem_append.mp hlink' with hlink' | hlink'
    · exact links_used h link' hlink' hpurpose
    · obtain rfl := List.mem_singleton.mp hlink'
      exact hw
  | resets raw id hash usedAt sessions revokedAt =>
    obtain ⟨x, ⟨account, haccount, rfl⟩, hopens⟩ := hw
    refine ⟨verified_markAt h fun id' hid' account' haccount' _ => ?_, fun link hlink hpurpose => hmono _ _ (links_used h link hlink hpurpose),
      fun session hsession => hmono _ _ (sessions_revoked h session hsession), hidentities, hcalls⟩
    obtain rfl := List.mem_singleton.mp hid'
    obtain rfl : account = account' := Option.some.inj (haccount.symm.trans haccount')
    intro hash' hhash'
    obtain rfl : hash = hash' := Option.some.inj hhash'
    exact hopens
  | issues session =>
    refine ⟨h.verified, h.links, fun session' hsession' => ?_, h.identities, h.calls⟩
    rcases List.mem_append.mp hsession' with hsession' | hsession'
    · exact h.sessions session' hsession'
    · obtain rfl := List.mem_singleton.mp hsession'
      exact hw
  | rotates raw session =>
    refine ⟨h.verified, h.links, fun session' hsession' => ?_, h.identities, h.calls⟩
    rcases List.mem_append.mp hsession' with hsession' | hsession'
    · exact sessions_revoked h session' hsession'
    · obtain rfl := List.mem_singleton.mp hsession'
      exact hw
  | revokes sessions => exact ⟨h.verified, h.links, sessions_revoked h, h.identities, h.calls⟩
  | links identity =>
    refine ⟨h.verified, h.links, h.sessions, fun identity' hidentity' => ?_, h.calls⟩
    rcases List.mem_append.mp hidentity' with hidentity' | hidentity'
    · exact h.identities identity' hidentity'
    · obtain rfl := List.mem_singleton.mp hidentity'
      exact hw
  | joins identity sessions =>
    refine ⟨verified_markAt h fun _ _ _ _ _ => nofun, hlinks, fun session hsession => hmono _ _ (sessions_revoked h session hsession),
      fun identity' hidentity' => ?_, hcalls⟩
    rcases List.mem_append.mp hidentity' with hidentity' | hidentity'
    · exact hidentities identity' hidentity'
    · obtain rfl := List.mem_singleton.mp hidentity'
      exact hmono _ _ hw
  | creates account provider providerUserId =>
    refine ⟨fun account' haccount' hverified => ?_, hlinks, fun session hsession => hmono _ _ (h.sessions session hsession),
      fun identity hidentity => ?_, hcalls⟩
    · rcases List.mem_append.mp haccount' with haccount' | haccount'
      · exact h.verified account' haccount' hverified
      · obtain rfl := List.mem_singleton.mp haccount'
        intro hash hhash
        rw [show account'.passwordHash = none from hw.1] at hhash
        cases hhash
    · rcases List.mem_append.mp hidentity with hidentity | hidentity
      · exact hidentities identity hidentity
      · obtain rfl := List.mem_singleton.mp hidentity
        rw [hw.2]
        exact ownedBy_new rfl

end Apply

/-! ### What a call does -/

/-- A step of a call writes what may be written, and the call remains what it was. -/
def StepSound (p : Parties Principal Password Hash) (s : State Principal Password Hash) (me : Principal)
    (r : Call Password Hash × Write Principal Hash) : Prop :=
  WriteSound p s r.2 ∧ CallSound p (s.apply p r.2) me r.1

theorem stepSound_stays (h : CallSound p s me call) : StepSound p s me (call, .nothing) := ⟨trivial, h⟩

theorem stepSound_answer {outcome : Outcome} : StepSound p s me (answer outcome) := ⟨trivial, trivial⟩

theorem findUser_spec {email : Text} {account : Account Hash} (h : s.findUser email = some (userId, account)) :
    s.users[userId]? = some account ∧ account.email = email := by
  obtain ⟨id, hid, h⟩ := Option.bind_eq_some_iff.mp h
  obtain ⟨account', haccount', heq⟩ := Option.map_eq_some_iff.mp h
  obtain ⟨rfl, rfl⟩ := Prod.mk.inj heq
  obtain ⟨hlt, hp, -⟩ := List.findIdx?_eq_some_iff_getElem.mp hid
  refine ⟨haccount', ?_⟩
  rw [List.getElem?_eq_getElem hlt] at haccount'
  obtain rfl := Option.some.inj haccount'
  exact of_decide_eq_true hp

theorem ownedBy_findUser {email : Text} {account : Account Hash} (h : s.findUser email = some (userId, account)) : OwnedBy p s userId (p.owner email) := by
  obtain ⟨haccount, rfl⟩ := findUser_spec h
  exact ⟨account, haccount, rfl⟩

theorem findIdentity_spec {profile : OAuthProfile} {identity : Identity} (h : s.findIdentity profile = some identity) :
    identity ∈ s.identities ∧ identity.provider = profile.provider ∧ identity.providerUserId = profile.providerUserId := by
  unfold State.findIdentity at h
  exact ⟨List.mem_of_find?_eq_some h, by simpa using List.find?_some h⟩

theorem register_sound {email : Text} {password : Password} {choice : ℕ} (pc : RegisterPc Hash) :
    StepSound p s me (register p s me email password choice pc) := by
  cases pc with
  | start => exact stepSound_stays trivial
  | hashed hash =>
    unfold register
    dsimp only
    split
    · exact stepSound_answer
    · exact stepSound_stays trivial
  | creating hash =>
    unfold register
    dsimp only
    split
    · exact stepSound_answer
    · exact ⟨rfl, trivial⟩

theorem presentedLink_spec [DecidableEq Principal] {raw : ℕ} {link : LinkRow Principal} (h : presentedLink s me raw = some link) :
    s.emailTokens[raw]? = some link ∧ link.knower = me := by
  obtain ⟨hget, hknower⟩ := Option.filter_eq_some_iff.mp h
  exact ⟨hget, of_decide_eq_true hknower⟩

theorem verifyEmail_sound [DecidableEq Principal] {raw : ℕ} (pc : VerifyPc)
    (htrusted : ∀ userId now, pc = .committing userId now → (s.emailTokens[raw]?.any fun link => claimable now link.row) = true →
      ∀ account ∈ s.users[userId]?, OwnPassword p account) :
    StepSound p s me (verifyEmail s me raw pc) := by
  cases pc with
  | start =>
    unfold verifyEmail
    dsimp only
    split
    · exact stepSound_stays trivial
    · exact stepSound_answer
  | claiming userId => exact stepSound_stays trivial
  | committing userId now =>
    unfold verifyEmail
    dsimp only
    split
    · next hclaim => exact ⟨htrusted userId now rfl hclaim, trivial⟩
    · exact stepSound_answer

theorem resendVerification_sound [DecidableEq Principal] {input : ResendInput} (pc : ResendPc) (h : CallSound p s me (.resendVerification input pc)) :
    StepSound p s me (resendVerification p s me input pc) := by
  cases pc with
  | start =>
    unfold resendVerification
    dsimp only
    split
    · split
      · next userId account hfind =>
        split
        · exact stepSound_answer
        · exact stepSound_stays ⟨account, (findUser_spec hfind).1, rfl⟩
      · exact stepSound_answer
    · split
      · exact stepSound_stays trivial
      · exact stepSound_answer
  | including userId pending =>
    unfold resendVerification
    dsimp only
    split
    · next account haccount =>
      split
      · exact stepSound_answer
      · exact stepSound_stays ⟨account, haccount, rfl⟩
    · exact stepSound_answer
  | issuing userId email =>
    unfold resendVerification
    dsimp only
    split
    · exact stepSound_answer
    · exact ⟨h, trivial⟩

theorem requestReset_sound {email : Text} (pc : RequestPc) (h : CallSound p s me (.requestReset email pc)) :
    StepSound p s me (requestReset p s email pc) := by
  cases pc with
  | start =>
    unfold requestReset
    dsimp only
    split
    · next userId account hfind => exact stepSound_stays (ownedBy_findUser hfind)
    · exact stepSound_answer
  | superseding userId => exact stepSound_stays h
  | creating userId superseded usedAt => exact ⟨h, trivial⟩

theorem completeReset_sound [DecidableEq Principal] {raw : ℕ} {newPassword : Password} {choice : ℕ} (hs : Kept p s) (pc : CompletePc Hash)
    (h : CallSound p s me (.completeReset raw newPassword pc)) : StepSound p s me (completeReset p s me raw newPassword choice pc) := by
  obtain ⟨hauthor, hpc⟩ := h
  cases pc with
  | start =>
    unfold completeReset
    dsimp only
    split
    · next link hlink =>
      obtain ⟨hpresented, hpresentable⟩ := Option.filter_eq_some_iff.mp hlink
      obtain ⟨hget, rfl⟩ := presentedLink_spec hpresented
      refine stepSound_stays ⟨hauthor, hs.links link (List.mem_of_getElem? hget) fun hpending => ?_⟩
      unfold State.isPresentable at hpresentable
      rw [hpending] at hpresentable
      cases hpresentable
    · exact stepSound_answer
  | hashing userId => exact stepSound_stays ⟨hauthor, hpc, fun password hverify => (p.author_of_verify _ _ _ hverify).trans hauthor⟩
  | claiming userId hash =>
    unfold completeReset
    dsimp only
    split
    · exact stepSound_stays ⟨hauthor, hpc⟩
    · exact stepSound_answer
  | revoking userId hash usedAt => exact stepSound_stays ⟨hauthor, hpc⟩
  | committing userId hash usedAt sessions revokedAt =>
    unfold completeReset
    dsimp only
    split
    · exact ⟨⟨me, hpc⟩, trivial⟩
    · exact stepSound_answer

theorem login_sound {email : Text} {password : Password} (hs : Kept p s) (pc : LoginPc) (h : CallSound p s me (.login email password pc)) :
    StepSound p s me (login p s me email password pc) := by
  obtain ⟨hauthor, hpc⟩ := h
  cases pc with
  | start =>
    unfold login
    dsimp only
    split
    · next userId account hfind =>
      split
      · exact stepSound_answer
      · next hverify =>
        split
        · exact stepSound_answer
        · next hverified =>
          obtain ⟨haccount, -⟩ := findUser_spec hfind
          have hown := hs.verified account (List.mem_of_getElem? haccount) (by simpa [Option.isNone_iff_eq_none, Option.isSome_iff_ne_none] using hverified)
          refine stepSound_stays ⟨hauthor, account, haccount, ?_⟩
          cases hhash : account.passwordHash with
          | none =>
            rw [hhash, Option.getD_none, p.verify_invalid] at hverify
            exact absurd rfl hverify
          | some hash =>
            rw [hhash, Option.getD_some, Bool.not_eq_false] at hverify
            exact (hown hash hhash password hverify).symm.trans hauthor
    · exact stepSound_answer
  | creating userId => exact ⟨hpc, trivial⟩

theorem refresh_sound [DecidableEq Principal] {raw : ℕ} (hs : Kept p s) (pc : RefreshPc) (h : CallSound p s me (.refresh raw pc)) : StepSound p s me (refresh p s me raw pc) := by
  cases pc with
  | start => exact stepSound_stays trivial
  | reading now =>
    unfold refresh
    dsimp only
    split
    · exact stepSound_answer
    · next session hsession =>
      obtain ⟨hget, hholder⟩ := Option.filter_eq_some_iff.mp hsession
      have howned := hs.sessions session (List.mem_of_getElem? hget)
      rw [of_decide_eq_true hholder] at howned
      split
      · split
        · exact stepSound_stays trivial
        · exact stepSound_answer
      · split
        · exact stepSound_answer
        · exact stepSound_stays howned
  | claiming userId now =>
    unfold refresh
    dsimp only
    split
    · exact ⟨h, trivial⟩
    · exact stepSound_answer
  | reused userId => exact ⟨trivial, trivial⟩

theorem signIn_sound [DecidableEq Principal] {profile : OAuthProfile} (hs : Kept p s) (pc : SignInPc) (h : CallSound p s me (.signIn profile pc)) :
    StepSound p s me (signIn p s me profile pc) := by
  obtain ⟨hholder, howner, hpc⟩ := h
  have hlinked (userId : ℕ) (h : OwnedBy p s userId me) : OwnedBy p s userId (p.holder profile.provider profile.providerUserId) := hholder.symm ▸ h
  cases pc with
  | start =>
    unfold signIn
    dsimp only
    split
    · next identity hfind =>
      obtain ⟨hmem, hprovider, huser⟩ := findIdentity_spec hfind
      have howned := hs.identities identity hmem
      rw [hprovider, huser, hholder] at howned
      exact stepSound_stays ⟨hholder, howner, howned⟩
    · split
      · next hverified => exact stepSound_stays ⟨hholder, howner, hverified⟩
      · exact ⟨trivial, trivial⟩
  | reading =>
    unfold signIn
    dsimp only
    split
    · next userId account hfind =>
      have howned : OwnedBy p s userId me := howner hpc ▸ ownedBy_findUser hfind
      split
      · exact stepSound_stays ⟨hholder, howner, howned⟩
      · exact stepSound_stays ⟨hholder, howner, howned⟩
    · exact stepSound_stays ⟨hholder, howner, hpc⟩
  | linking userId =>
    unfold signIn
    dsimp only
    split
    · exact stepSound_answer
    · exact ⟨hlinked userId hpc, hholder, howner, ownedBy_apply hpc⟩
  | joining userId => exact stepSound_stays ⟨hholder, howner, hpc⟩
  | joined userId sessions =>
    unfold signIn
    dsimp only
    split
    · exact stepSound_answer
    · exact ⟨hlinked userId hpc, hholder, howner, ownedBy_apply hpc⟩
  | creating =>
    unfold signIn
    dsimp only
    split
    · exact stepSound_answer
    · refine ⟨⟨rfl, hholder.trans (howner hpc).symm⟩, hholder, howner, ?_⟩
      exact ⟨_, List.getElem?_concat_length, howner hpc⟩
  | issuing userId => exact ⟨hpc, trivial⟩

/-! ### Steps -/

theorem kept_calls {calls : List (Principal × Call Password Hash)} {now : ℤ} (h : Kept p s) (hcalls : ∀ c ∈ calls, CallSound p s c.1 c.2) :
    Kept p { s with now, calls } :=
  ⟨h.verified, h.links, h.sessions, h.identities, fun c hc => callSound_mono (fun _ _ hid => hid) (hcalls c hc)⟩

theorem request_sound [DecidableEq Principal] {r : Request Password} (h : permitted p me r = true) : CallSound p s me r.call := by
  cases r with
  | completeReset raw newPassword => exact ⟨of_decide_eq_true h, trivial⟩
  | login email password => exact ⟨of_decide_eq_true h, trivial⟩
  | signIn profile =>
    obtain ⟨hholder, howner⟩ := of_decide_eq_true h
    exact ⟨hholder, howner, trivial⟩
  | _ => trivial

theorem kept_initial {now : ℤ} : Kept p (initial now) := ⟨nofun, nofun, nofun, nofun, nofun⟩

section Steps

variable [DecidableEq Principal] {a : Action Principal Password} {k choice : ℕ} {r : Call Password Hash × Write Principal Hash}

theorem call_sound (hs : Kept p s) (hcall : s.calls[k]? = some (me, call)) (htrusted : Trusted p s (.step k choice))
    (h : call.next p s me choice = some r) : StepSound p s me r := by
  have hsound := hs.calls (me, call) (List.mem_of_getElem? hcall)
  cases call with
  | register email password pc =>
    cases h
    exact register_sound pc
  | verifyEmail raw pc =>
    cases h
    refine verifyEmail_sound pc fun userId now hpc => htrusted me raw userId now ?_
    rw [hcall, hpc]
  | resendVerification input pc =>
    cases h
    exact resendVerification_sound pc hsound
  | requestReset email pc =>
    cases h
    exact requestReset_sound pc hsound
  | completeReset raw newPassword pc =>
    cases h
    exact completeReset_sound hs pc hsound
  | login email password pc =>
    cases h
    exact login_sound hs pc hsound
  | refresh raw pc =>
    cases h
    exact refresh_sound hs pc hsound
  | signIn profile pc =>
    cases h
    exact signIn_sound hs pc hsound
  | done ending => cases h

theorem kept_step (h : Kept p s) (htrusted : Trusted p s a) (hs : s.next p a = some s') : Kept p s' := by
  cases a with
  | request me r =>
    unfold State.next at hs
    dsimp only at hs
    split at hs
    · next hpermitted =>
      cases hs
      refine kept_calls h fun c hc => ?_
      rcases List.mem_append.mp hc with hc | hc
      · exact h.calls c hc
      · obtain rfl := List.mem_singleton.mp hc
        exact request_sound hpermitted
    · cases hs
  | step k choice =>
    obtain ⟨⟨me, call⟩, hcall, hs⟩ := Option.bind_eq_some_iff.mp hs
    obtain ⟨⟨call', w⟩, hnext, rfl⟩ := Option.map_eq_some_iff.mp hs
    obtain ⟨hw, hcall'⟩ := call_sound h hcall htrusted hnext
    have happly := kept_apply h hw
    refine kept_calls happly fun c hc => ?_
    rcases List.mem_or_eq_of_mem_set hc with hc | rfl
    · exact callSound_mono (fun _ _ hid => ownedBy_apply hid) (h.calls c hc)
    · exact hcall'
  | fail k =>
    obtain ⟨⟨me, call⟩, hcall, hs⟩ := Option.bind_eq_some_iff.mp hs
    dsimp only at hs
    split at hs
    · cases hs
    · cases hs
      refine kept_calls h fun c hc => ?_
      rcases List.mem_or_eq_of_mem_set hc with hc | rfl
      · exact h.calls c hc
      · trivial
  | tick ms =>
    cases hs
    exact kept_calls h h.calls

/-! ### One account for an address -/

/-- What is inserted is not there. -/
def Fresh (s : State Principal Password Hash) : Write Principal Hash → Prop
  | .registers account _ => s.emailTaken account.email = false
  | .links identity | .joins identity _ => ∀ i ∈ s.identities, (i.provider, i.providerUserId) ≠ (identity.provider, identity.providerUserId)
  | .creates account provider providerUserId => s.emailTaken account.email = false ∧
    ∀ i ∈ s.identities, (i.provider, i.providerUserId) ≠ (provider, providerUserId)
  | _ => True

omit [DecidableEq Principal] in
theorem not_mem_of_not_taken {email : Text} (h : s.emailTaken email = false) : email ∉ s.users.map (·.email) := by
  intro hmem
  obtain ⟨account, haccount, rfl⟩ := List.mem_map.mp hmem
  exact absurd (List.any_eq_false.mp h account haccount) (by simp)

omit [DecidableEq Principal] in
theorem ne_of_not_taken {profile : OAuthProfile} (h : s.identityTaken profile = false) :
    ∀ i ∈ s.identities, (i.provider, i.providerUserId) ≠ (profile.provider, profile.providerUserId) := by
  intro i hi heq
  obtain ⟨hprovider, huser⟩ := Prod.mk.inj heq
  unfold State.identityTaken State.findIdentity at h
  rw [Option.isSome_eq_false_iff, Option.isNone_iff_eq_none, List.find?_eq_none] at h
  exact h i hi (decide_eq_true ⟨hprovider, huser⟩)

omit [DecidableEq Principal] in
theorem single_apply (h : Single s) (hw : Fresh s w) : Single (s.apply p w) := by
  have hmark {ids : List ℕ} {f : Account Hash → Account Hash} (hf : ∀ account, (f account).email = account.email) :
      ((markAt ids f s.users).map (·.email)).Nodup := by
    rw [map_markAt hf]
    exact h.accounts
  have haccount {account : Account Hash} (ht : s.emailTaken account.email = false) : ((s.users ++ [account]).map (·.email)).Nodup := by
    rw [List.map_append, List.map_singleton, ← List.concat_eq_append]
    exact h.accounts.concat (not_mem_of_not_taken ht)
  have hidentity {identity : Identity} (hne : ∀ i ∈ s.identities, (i.provider, i.providerUserId) ≠ (identity.provider, identity.providerUserId)) :
      ((s.identities ++ [identity]).map fun i => (i.provider, i.providerUserId)).Nodup := by
    rw [List.map_append, List.map_singleton, ← List.concat_eq_append]
    refine h.identities.concat fun hmem => ?_
    obtain ⟨i, hi, heq⟩ := List.mem_map.mp hmem
    exact hne i hi heq
  cases w with
  | registers account registrant => exact ⟨haccount hw, h.identities⟩
  | confirms raw id now => exact ⟨hmark fun _ => rfl, h.identities⟩
  | resets raw id hash usedAt sessions revokedAt => exact ⟨hmark fun _ => rfl, h.identities⟩
  | links identity => exact ⟨h.accounts, hidentity hw⟩
  | joins identity sessions => exact ⟨hmark fun _ => rfl, hidentity hw⟩
  | creates account provider providerUserId => exact ⟨haccount hw.1, hidentity hw.2⟩
  | _ => exact ⟨h.accounts, h.identities⟩

theorem fresh_next (h : call.next p s me choice = some r) : Fresh s r.2 := by
  cases call with
  | register email password pc =>
    cases h
    cases pc with
    | creating hash =>
      unfold register
      dsimp only
      split
      · trivial
      · next htaken => exact Bool.eq_false_iff.mpr htaken
    | hashed hash =>
      unfold register
      dsimp only
      split <;> trivial
    | start => trivial
  | signIn profile pc =>
    cases h
    cases pc with
    | linking userId =>
      unfold signIn
      dsimp only
      split
      · trivial
      · next htaken => exact ne_of_not_taken (Bool.eq_false_iff.mpr htaken)
    | joined userId sessions =>
      unfold signIn
      dsimp only
      split
      · trivial
      · next htaken => exact ne_of_not_taken (Bool.eq_false_iff.mpr htaken)
    | creating =>
      unfold signIn
      dsimp only
      split
      · trivial
      · next htaken =>
        rw [Bool.or_eq_true, not_or] at htaken
        exact ⟨Bool.eq_false_iff.mpr htaken.1, ne_of_not_taken (Bool.eq_false_iff.mpr htaken.2)⟩
    | start =>
      unfold signIn
      dsimp only
      split
      · trivial
      · split <;> trivial
    | reading =>
      unfold signIn
      dsimp only
      split
      · split <;> trivial
      · trivial
    | _ => trivial
  | verifyEmail raw pc =>
    cases h
    cases pc <;> unfold verifyEmail <;> dsimp only <;> repeat' split
    all_goals trivial
  | resendVerification input pc =>
    cases h
    cases pc <;> unfold resendVerification <;> dsimp only <;> repeat' split
    all_goals trivial
  | requestReset email pc =>
    cases h
    cases pc <;> unfold requestReset <;> dsimp only <;> repeat' split
    all_goals trivial
  | completeReset raw newPassword pc =>
    cases h
    cases pc <;> unfold completeReset <;> dsimp only <;> repeat' split
    all_goals trivial
  | login email password pc =>
    cases h
    cases pc <;> unfold login <;> dsimp only <;> repeat' split
    all_goals trivial
  | refresh raw pc =>
    cases h
    cases pc <;> unfold refresh <;> dsimp only <;> repeat' split
    all_goals trivial
  | done ending => cases h

theorem single_step (h : Single s) (hs : s.next p a = some s') : Single s' := by
  cases a with
  | request me r =>
    unfold State.next at hs
    dsimp only at hs
    split at hs
    · cases hs
      exact ⟨h.accounts, h.identities⟩
    · cases hs
  | step k choice =>
    obtain ⟨⟨me, call⟩, hcall, hs⟩ := Option.bind_eq_some_iff.mp hs
    obtain ⟨⟨call', w⟩, hnext, rfl⟩ := Option.map_eq_some_iff.mp hs
    have happly : Single (s.apply p w) := single_apply h (fresh_next hnext)
    exact ⟨happly.accounts, happly.identities⟩
  | fail k =>
    obtain ⟨⟨me, call⟩, hcall, hs⟩ := Option.bind_eq_some_iff.mp hs
    dsimp only at hs
    split at hs
    · cases hs
    · cases hs
      exact ⟨h.accounts, h.identities⟩
  | tick ms =>
    cases hs
    exact ⟨h.accounts, h.identities⟩

/-- In every run there is one account for an address, and one identity for a provider's user. -/
theorem single_of_reaches {now : ℤ} (h : Reaches (Step p) (initial now) s) : Single s :=
  h.inv ⟨List.nodup_nil, List.nodup_nil⟩ fun _ _ _ hu hs => single_step hu hs

/-- **Every session is held by the owner of its account's address** in every run in which no link confirms the address of
an account whose password another principal has typed. -/
theorem owned_of_trusted {now : ℤ} (h : Reaches (Guarded (Step p) fun s a _ => Trusted p s a) (initial now) s) : SessionsOwned p s ∧ Single s :=
  ⟨(h.inv kept_initial fun _ _ _ hu hs => kept_step hu hs.2 hs.1).sessions, single_of_reaches h.of_guarded⟩

end Steps

/-! ### An owner, and another who was there first -/

/-- Every address, and every user of a provider, is that of principal 0; a password says whose it is. -/
def addressee : Parties ℕ (ℕ × ℕ) (Option (ℕ × ℕ)) where
  verifyPassword password hash := hash = some password
  hashPassword password _ := some password
  invalidHash := none
  refreshTtlMs := 604800000
  toLowerCase := id
  author := Prod.fst
  owner _ := 0
  holder _ _ := 0
  author_of_verify _ _ _ h := by rw [Option.some.inj (of_decide_eq_true h)]
  verify_invalid _ := rfl

def mailbox : Text := ascii "a@b.c"

/-- One registers, the owner follows the link, and the one logs in. -/
def joint (one : ℕ) : List (Action ℕ (ℕ × ℕ)) :=
  [.request one (.register mailbox (one, 1)), .step 0 0, .step 0 0, .step 0 0, .request 0 (.verifyEmail 0), .step 1 0, .step 1 0, .step 1 0,
    .request one (.login mailbox (one, 1)), .step 2 0, .step 2 0]

/-- No account has a password that is not its owner's. -/
def ownPasswords (s : State ℕ (ℕ × ℕ) (Option (ℕ × ℕ))) (_ : Action ℕ (ℕ × ℕ)) : Bool :=
  s.users.all fun account => account.passwordHash.all fun hash => hash.all fun password => password.1 = 0

theorem trusted_of_ownPasswords {s : State ℕ (ℕ × ℕ) (Option (ℕ × ℕ))} {a : Action ℕ (ℕ × ℕ)} (h : ownPasswords s a = true) : Trusted addressee s a := by
  cases a with
  | step k choice =>
    intro me raw userId now _ _ account haccount hash hhash password hverify
    have hall := List.all_eq_true.mp h account (List.mem_of_getElem? haccount)
    rw [Option.mem_def.mp hhash] at hall
    obtain rfl : hash = some password := of_decide_eq_true hverify
    exact of_decide_eq_true hall
  | _ => trivial

theorem owned_of_own_password : ∃ s, Reaches (Guarded (Step addressee) fun s a _ => Trusted addressee s a) (initial 0) s ∧
    s.refreshTokens.map (·.holder) = [0] ∧ SessionsOwned addressee s ∧ Single s := by
  obtain ⟨s, hs, hsessions⟩ := Reaches.exists_of_play (State.next addressee) ownPasswords (initial 0) (joint 0)
    (fun s => s.refreshTokens.map (·.holder) = [0]) (by decide)
  have htrusted : Reaches (Guarded (Step addressee) fun s a _ => Trusted addressee s a) (initial 0) s :=
    hs.mono fun _ _ _ h => ⟨h.1, trusted_of_ownPasswords h.2⟩
  exact ⟨s, htrusted, hsessions, owned_of_trusted htrusted⟩

/-- The one is not the owner, and comes to hold a session. -/
theorem held_by_another : ∃ s, Reaches (Step addressee) (initial 0) s ∧ ¬ SessionsOwned addressee s := by
  obtain ⟨s, hs, hsessions⟩ := Reaches.exists_of_play (State.next addressee) (fun _ _ => true) (initial 0) (joint 1)
    (fun s => s.refreshTokens.map (·.holder) = [1]) (by decide)
  refine ⟨s, hs.of_guarded, fun howned => ?_⟩
  have hone : 1 ∈ s.refreshTokens.map (·.holder) := hsessions ▸ List.mem_singleton_self _
  obtain ⟨session, hsession, hholder⟩ := List.mem_map.mp hone
  obtain ⟨account, -, hzero⟩ := howned session hsession
  exact absurd (hzero.trans hholder) Nat.zero_ne_one

end WebAudit.Auth.Accounts
