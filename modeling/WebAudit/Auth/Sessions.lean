import WebAudit.Auth.Locks

/-!
# What a revocation ends

A refresh token has one successor, whoever presents it and how often. A revocation ends every session
that its update has seen, and all that would follow from them; but not one that another transaction
stores after the update has begun, nor one that a login stores after its password has been changed.
Where no session is stored so, it is complete (`revocation_complete`).
-/

namespace WebAudit.Auth

open WebAudit.Lib

variable {Password Hash : Type} {p : Platform Password Hash} {s s' : State Password Hash} {a : Action Password}
  {me choice : ℕ} {call call' : Call Password Hash} {change : Change Hash} {w : Writes Hash}

/-! ### What is asked -/

def RefreshToken.Live (now : ℤ) (row : RefreshToken) : Prop := row.revokedAt = none ∧ now ≤ row.expiresAt

/-- Session `j` comes from session `i`, by any number of rotations. -/
inductive Descends (table : Table RefreshToken) (i : ℕ) : ℕ → Prop where
  | self : Descends table i i
  | rotated {j k : ℕ} {u : Tuple RefreshToken} (h : Descends table i j) (hk : table[k]? = some u)
      (horigin : u.row.origin = .rotation j) : Descends table i k

/-- A revocation that has visited its rows, with how many it has seen. -/
def Call.revokes : Call Password Hash → Option ℕ
  | .refresh _ (.revoking _ ⟨[], seen⟩) => some seen
  | .completeReset _ _ (.revoking _ _ _ ⟨[], seen⟩) => some seen
  | _ => none

/-- What is asked of the runs from `s₀` whose steps are `R`. -/
structure Complete (R : State Password Hash → Action Password → State Password Hash → Prop) (s₀ : State Password Hash) : Prop where
  successor : ∀ s, Reaches R s₀ s → ∀ (token i j : ℕ) u v, s.refreshTokens[i]? = some u → s.refreshTokens[j]? = some v →
    u.row.origin = .rotation token → v.row.origin = .rotation token → i = j
  /-- After a revocation no session is live that comes from one before it, or from a password before it. -/
  ended : ∀ s s' s'' me choice call, Reaches R s₀ s → s.calls[me]? = some call → call.revokes.isSome = true →
    R s (.step me choice) s' → Reaches R s' s'' →
    ∀ (i j : ℕ) u v, s''.refreshTokens[i]? = some u → s''.refreshTokens[j]? = some v → v.row.Live s''.now →
      Descends s''.refreshTokens i j →
      s'.refreshTokens.length ≤ i ∧ ∀ checked, u.row.origin = .login checked → s'.passwordChanges ≤ checked

/-- A session is stored by who has checked the present password, and no revocation ends while one is live that
its update has not seen. -/
def State.sound (s : State Password Hash) : Action Password → Bool
  | .step me _ =>
    match s.calls[me]? with
    | some (.login _ (.creating checked)) => checked == s.passwordChanges
    | some call =>
      match call.revokes with
      | some seen => (s.refreshTokens.drop seen).all fun u => !unrevoked u.row
      | none => true
    | none => true
  | _ => true

section Sound

variable {password : Password} {checked seen : ℕ}

theorem sound_login (hcall : s.calls[me]? = some (.login password (.creating checked))) (h : s.sound (.step me choice) = true) :
    checked = s.passwordChanges := by
  unfold State.sound at h
  dsimp only at h
  rw [hcall] at h
  simpa using h

theorem sound_revokes (hcall : s.calls[me]? = some call) (hrevokes : call.revokes = some seen)
    (h : s.sound (.step me choice) = true) : ∀ (i : ℕ) u, seen ≤ i → s.refreshTokens[i]? = some u → unrevoked u.row = false := by
  unfold State.sound at h
  dsimp only at h
  rw [hcall] at h
  have hall : ((s.refreshTokens.drop seen).all fun u => !unrevoked u.row) = true := by
    cases call with
    | login password pc => cases hrevokes
    | _ =>
      dsimp only at h
      rw [hrevokes] at h
      exact h
  intro i u hi hu
  have hmem : u ∈ s.refreshTokens.drop seen := by
    refine List.mem_iff_getElem?.mpr ⟨i - seen, ?_⟩
    rw [List.getElem?_drop, Nat.add_sub_cancel' hi]
    exact hu
  simpa using List.all_eq_true.mp hall u hmem

end Sound

/-! ### The sessions after a step -/

/-- Sessions keep their origin and stay revoked, and a new one is what a transaction has stored. -/
theorem change_session {j : ℕ} {u' : Tuple RefreshToken} (h : (s.change me change).refreshTokens[j]? = some u') :
    (∃ u, s.refreshTokens[j]? = some u ∧ u'.row.origin = u.row.origin ∧ (unrevoked u'.row = true → unrevoked u.row = true)) ∨
      j = s.refreshTokens.length ∧ ∃ w, change = .commits w ∧ w.refreshToken = some u'.row := by
  cases change with
  | stays => exact .inl ⟨u', h, rfl, id⟩
  | locksEmailToken i => exact .inl ⟨u', h, rfl, id⟩
  | locksUser => exact .inl ⟨u', h, rfl, id⟩
  | locksRefreshToken i =>
    rcases lock_cases h with ⟨rfl, u, hu, rfl⟩ | ⟨-, hu⟩
    · exact .inl ⟨u, hu, rfl, id⟩
    · exact .inl ⟨u', hu, rfl, id⟩
  | commits w =>
    rcases insertSome_cases _ h with ⟨rfl, hrow⟩ | ⟨-, hu⟩
    · exact .inr ⟨commit_length, w, rfl, hrow⟩
    · obtain ⟨v, hv, ⟨-, rfl⟩ | ⟨-, rfl⟩⟩ := commit_cases hu
      · exact .inl ⟨v, hv, rfl, unrevoked_revoke⟩
      · exact .inl ⟨u', hv, rfl, id⟩

theorem change_sessions_length : s.refreshTokens.length ≤ (s.change me change).refreshTokens.length := by
  cases change with
  | commits w => exact commit_length.ge.trans insertSome_length
  | locksRefreshToken i => exact lock_length.ge
  | _ => exact le_rfl

/-- What a transaction has locked is revoked when it ends. -/
theorem revoked_of_held {token : ℕ} {v : Tuple RefreshToken} (hheld : Held unrevoked s.refreshTokens me token)
    (hrevoked : w.revokedAt.isSome = true) (hv : (s.change me (.commits w)).refreshTokens[token]? = some v) :
    unrevoked v.row = false := by
  obtain ⟨u, hu, hxmax, -⟩ := hheld
  obtain ⟨revokedAt, hsome⟩ := Option.isSome_iff_exists.mp hrevoked
  rcases insertSome_cases _ hv with ⟨heq, -⟩ | ⟨-, hv⟩
  · rw [commit_length] at heq
    exact absurd (List.getElem?_eq_some_iff.mp hu).1 (by omega)
  · obtain ⟨u', hu', ⟨-, rfl⟩ | ⟨hother, -⟩⟩ := commit_cases hv
    · rw [hsome]
      exact unrevoked_revoke_some revokedAt _
    · cases hu.symm.trans hu'
      exact absurd hxmax hother

/-! ### Successors -/

/-- A session that has been rotated is revoked, and has one successor. -/
structure Lineage (s : State Password Hash) : Prop where
  parent : ∀ (j : ℕ) u token, s.refreshTokens[j]? = some u → u.row.origin = .rotation token →
    token < j ∧ ∀ v, s.refreshTokens[token]? = some v → unrevoked v.row = false
  one : ∀ (token i j : ℕ) u v, s.refreshTokens[i]? = some u → s.refreshTokens[j]? = some v →
    u.row.origin = .rotation token → v.row.origin = .rotation token → i = j

theorem Lineage.changed (h : Lineage s) (hallowed : change.Allowed s me call) : Lineage (s.change me change) := by
  have hnew (token j : ℕ) (u : Tuple RefreshToken) (hu : s.refreshTokens[j]? = some u) (horigin : u.row.origin = .rotation token)
      (hheld : Held unrevoked s.refreshTokens me token) : False := by
    obtain ⟨v, hv, -, hunrevoked⟩ := hheld
    rw [(h.parent j u token hu horigin).2 v hv] at hunrevoked
    cases hunrevoked
  refine ⟨fun j u' token hu' horigin => ?_, fun token i j u' v' hu' hv' horigin horigin' => ?_⟩
  · rcases change_session hu' with ⟨u, hu, hsame, -⟩ | ⟨rfl, w, rfl, hrow⟩
    · obtain ⟨hlt, hrevoked⟩ := h.parent j u token hu (hsame ▸ horigin)
      refine ⟨hlt, fun v' hv' => ?_⟩
      rcases change_session hv' with ⟨v, hv, -, hkeeps⟩ | ⟨rfl, -⟩
      · refine (Bool.not_eq_true _).mp fun hunrevoked => ?_
        rw [hrevoked v hv] at hkeeps
        cases hkeeps hunrevoked
      · exact absurd (List.getElem?_eq_some_iff.mp hu).1 (by omega)
    · obtain ⟨hheld, hrevoked⟩ := hallowed.rotation u'.row token hrow horigin
      exact ⟨hheld.lt_length, fun v' hv' => revoked_of_held hheld hrevoked hv'⟩
  · rcases change_session hu' with ⟨u, hu, hsame, -⟩ | ⟨rfl, w, rfl, hrow⟩
    · rcases change_session hv' with ⟨v, hv, hsame', -⟩ | ⟨rfl, w, rfl, hrow⟩
      · exact h.one token i j u v hu hv (hsame ▸ horigin) (hsame' ▸ horigin')
      · exact (hnew token i u hu (hsame ▸ horigin) (hallowed.rotation v'.row token hrow horigin').1).elim
    · rcases change_session hv' with ⟨v, hv, hsame', -⟩ | ⟨rfl, -⟩
      · exact (hnew token j v hv (hsame' ▸ horigin') (hallowed.rotation u'.row token hrow horigin).1).elim
      · rfl

/-- **Every step keeps the lineage.** -/
theorem lineage_step (h : Lineage s) (hholds : AllHold s) (hstep : Step p s a s') : Lineage s' := by
  cases step_happens hstep with
  | requests r => exact ⟨h.parent, h.one⟩
  | moves hcall hmoves =>
    obtain ⟨hparent, hone⟩ := h.changed (hmoves.knows (hholds _ _ hcall)).1
    exact ⟨hparent, hone⟩
  | ticks ms => exact ⟨h.parent, h.one⟩

theorem lineage_initial (user : User Hash) (now : ℤ) (emailTokens : List EmailToken) :
    Lineage (initial user now emailTokens : State Password Hash) := by
  refine ⟨fun j u token hu => ?_, fun token i j u v hu => ?_⟩ <;> cases hu

/-- **The run**: what every call knows, and the lineage. -/
theorem lineage_run {user : User Hash} {now : ℤ} {emailTokens : List EmailToken}
    (h : Reaches (Step p) (initial user now emailTokens) s) : AllHold s ∧ Lineage s :=
  h.inv (I := fun s => AllHold s ∧ Lineage s) ⟨allHold_initial user now emailTokens, lineage_initial user now emailTokens⟩
    fun _ _ _ hi hstep => ⟨holds_step hi.1 hstep, lineage_step hi.2 hi.1 hstep⟩

/-! ### What has been ended -/

theorem Descends.old {table table' : Table RefreshToken} {i j : ℕ} (h : Descends table' i j) (hj : j < table.length)
    (hsame : ∀ (k : ℕ) u', k < table.length → table'[k]? = some u' → ∃ u, table[k]? = some u ∧ u'.row.origin = u.row.origin)
    (hparent : ∀ (k : ℕ) u token, table[k]? = some u → u.row.origin = .rotation token → token < k) : Descends table i j := by
  induction h with
  | self => exact .self
  | rotated _ hk horigin ih =>
    obtain ⟨u, hu, heq⟩ := hsame _ _ hj hk
    have horigin' := heq.symm.trans horigin
    exact .rotated (ih ((hparent _ u _ hu horigin').trans hj)) hu horigin'

/-- The sessions that are not revoked come from none of the first `tokens`, and from no password before that one. -/
structure Ended (tokens changes : ℕ) (s : State Password Hash) : Prop where
  length : tokens ≤ s.refreshTokens.length
  passwordChanges : changes ≤ s.passwordChanges
  each : ∀ (i j : ℕ) u v, s.refreshTokens[i]? = some u → s.refreshTokens[j]? = some v → unrevoked v.row = true →
    Descends s.refreshTokens i j → tokens ≤ i ∧ ∀ checked, u.row.origin = .login checked → changes ≤ checked

theorem change_passwordChanges : s.passwordChanges ≤ (s.change me change).passwordChanges := by
  cases change with
  | commits w => exact Nat.le_add_right _ _
  | _ => exact le_rfl

/-- **A step keeps what has been ended**, if who logs in has checked the present password. -/
theorem Ended.changed {tokens changes : ℕ} (h : Ended tokens changes s) (hlineage : Lineage s) (hallowed : change.Allowed s me call)
    (hlogin : ∀ w row checked, change = .commits w → w.refreshToken = some row → row.origin = .login checked →
      checked = s.passwordChanges) :
    Ended tokens changes (s.change me change) := by
  have hold {i j : ℕ} {v : Tuple RefreshToken} (hv : s.refreshTokens[j]? = some v)
      (hdescends : Descends (s.change me change).refreshTokens i j) : Descends s.refreshTokens i j := by
    refine hdescends.old (List.getElem?_eq_some_iff.mp hv).1 (fun k u' hk hu' => ?_) fun k u token hu horigin =>
      (hlineage.parent k u token hu horigin).1
    rcases change_session hu' with ⟨u, hu, hsame, -⟩ | ⟨rfl, -⟩
    · exact ⟨u, hu, hsame⟩
    · exact absurd hk (lt_irrefl _)
  -- from a session that was there and was not revoked
  have hfrom {i j : ℕ} {u' v : Tuple RefreshToken} (hu' : (s.change me change).refreshTokens[i]? = some u')
      (hv : s.refreshTokens[j]? = some v) (hunrevoked : unrevoked v.row = true)
      (hdescends : Descends (s.change me change).refreshTokens i j) :
      tokens ≤ i ∧ ∀ checked, u'.row.origin = .login checked → changes ≤ checked := by
    rcases change_session hu' with ⟨u, hu, hsame, -⟩ | ⟨rfl, w, rfl, hrow⟩
    · rw [hsame]
      exact h.each i j u v hu hv hunrevoked (hold hv hdescends)
    · refine ⟨h.length, fun checked horigin => ?_⟩
      rw [hlogin w u'.row checked rfl hrow horigin]
      exact h.passwordChanges
  refine ⟨h.length.trans change_sessions_length, h.passwordChanges.trans change_passwordChanges, fun i j u' v' hu' hv' hunrevoked hdescends => ?_⟩
  rcases change_session hv' with ⟨v, hv, -, hkeeps⟩ | ⟨rfl, w, rfl, hrow⟩
  · exact hfrom hu' hv (hkeeps hunrevoked) hdescends
  · cases hdescends with
    | self =>
      cases hu'.symm.trans hv'
      refine ⟨h.length, fun checked horigin => ?_⟩
      rw [hlogin w u'.row checked rfl hrow horigin]
      exact h.passwordChanges
    | rotated hbefore hk horigin =>
      cases hv'.symm.trans hk
      obtain ⟨v, hv, -, hlive⟩ := (hallowed.rotation v'.row _ hrow horigin).1
      exact hfrom hu' hv hlive hbefore

theorem ended_step {tokens changes : ℕ} (h : Ended tokens changes s) (hholds : AllHold s) (hlineage : Lineage s)
    (hstep : Step p s a s') (hsound : s.sound a = true) : Ended tokens changes s' := by
  cases step_happens hstep with
  | requests r => exact ⟨h.length, h.passwordChanges, h.each⟩
  | ticks ms => exact ⟨h.length, h.passwordChanges, h.each⟩
  | @moves _ me call call' change hcall hmoves =>
    have hchanged : Ended tokens changes (s.change me change) := by
      have hallowed := (hmoves.knows (hholds _ _ hcall)).1
      refine h.changed hlineage hallowed fun w row checked hcommits hrow horigin => ?_
      subst hcommits
      obtain ⟨password, rfl⟩ := hallowed.login row checked hrow horigin
      cases hmoves with
      | goes hnext => exact sound_login hcall hsound
      | fails hfails => cases hrow
    exact ⟨hchanged.length, hchanged.passwordChanges, hchanged.each⟩

/-! ### What a revocation does -/

theorem revokes_next {seen : ℕ} (hholds : call.Holds s me) (hrevokes : call.revokes = some seen)
    (h : call.next p s choice = some (call', change)) :
    Swept unrevoked s.refreshTokens me ⟨[], seen⟩ ∧
      ∃ w revokedAt, change = .commits w ∧ w.revokedAt = some revokedAt ∧ w.refreshToken = none := by
  unfold Call.revokes at hrevokes
  split at hrevokes
  · cases hrevokes
    cases h
    exact ⟨hholds, _, _, rfl, rfl, rfl⟩
  · cases hrevokes
    cases h
    exact ⟨hholds.2, _, _, rfl, rfl, rfl⟩
  · cases hrevokes

/-- **After it no session is left**, if none was stored that its update has not seen. -/
theorem revoked_all {seen : ℕ} (hholds : AllHold s) (hcall : s.calls[me]? = some call) (hrevokes : call.revokes = some seen)
    (hstep : Step p s (.step me choice) s') (hsound : s.sound (.step me choice) = true) :
    ∀ (i : ℕ) u, s'.refreshTokens[i]? = some u → unrevoked u.row = false := by
  cases step_happens hstep with
  | @moves _ me call call' change hcall' hmoves =>
    cases hmoves with
    | goes hnext =>
      cases hcall'.symm.trans hcall
      obtain ⟨hswept, w, revokedAt, rfl, hrevokedAt, hnone⟩ := revokes_next (hholds me _ hcall) hrevokes hnext
      intro i u hu
      have hu' : (s.refreshTokens.commit me (revoke w.revokedAt))[i]? = some u := by
        have hat : (insertSome (s.refreshTokens.commit me (revoke w.revokedAt)) w.refreshToken)[i]? = some u := hu
        rw [hnone] at hat
        exact hat
      by_cases hi : i < seen
      · refine hswept.commit (fun row => ?_) i u hi hu'
        rw [hrevokedAt]
        exact unrevoked_revoke_some revokedAt row
      · obtain ⟨v, hv, -, hkeeps⟩ | ⟨-, w', hw', hrow⟩ := change_session hu
        · have hdead := sound_revokes hcall hrevokes hsound i v (not_lt.mp hi) hv
          refine (Bool.not_eq_true _).mp fun hunrevoked => ?_
          rw [hkeeps hunrevoked] at hdead
          cases hdead
        · cases hw'
          cases hnone.symm.trans hrow

theorem RefreshToken.Live.unrevoked {now : ℤ} {row : RefreshToken} (h : row.Live now) : Auth.unrevoked row = true := by
  unfold Auth.unrevoked
  rw [h.1]
  rfl

/-- **Revocation is complete** in the runs in which every session is stored for the present password, and every revocation
has seen the sessions that are live when it ends. -/
theorem revocation_complete (p : Platform Password Hash) (user : User Hash) (now : ℤ) (emailTokens : List EmailToken) :
    Complete (Guarded (Step p) fun s a _ => s.sound a = true) (initial user now emailTokens) where
  successor s hrun := (lineage_run hrun.of_guarded).2.one
  ended s s' s'' me choice call hrun hcall hrevokes hstep hafter := by
    obtain ⟨seen, hseen⟩ := Option.isSome_iff_exists.mp hrevokes
    obtain ⟨hholds, hlineage⟩ := lineage_run hrun.of_guarded
    have hdead := revoked_all hholds hcall hseen hstep.1 hstep.2
    have hended : Ended s'.refreshTokens.length s'.passwordChanges s' := by
      refine ⟨le_rfl, le_rfl, fun i j u v _ hv hunrevoked => ?_⟩
      rw [hdead j v hv] at hunrevoked
      cases hunrevoked
    have hinv : AllHold s'' ∧ Lineage s'' ∧ Ended s'.refreshTokens.length s'.passwordChanges s'' :=
      hafter.inv (I := fun s => AllHold s ∧ Lineage s ∧ Ended s'.refreshTokens.length s'.passwordChanges s)
        ⟨holds_step hholds hstep.1, lineage_step hlineage hholds hstep.1, hended⟩ fun _ _ _ hi hs =>
          ⟨holds_step hi.1 hs.1, lineage_step hi.2.1 hi.1 hs.1, ended_step hi.2.2 hi.1 hi.2.1 hs.1 hs.2⟩
    exact fun i j u v hu hv hlive hdescends => hinv.2.2.each i j u v hu hv hlive.unrevoked hdescends

/-! ### A rotation during a reset -/

section Sample

def sampleStart : State ℕ ℕ := initial ⟨some 1, some 0⟩ 0 []

/-- A user logs in and asks for a reset. Their session is claimed by a rotation; then the update of `completeReset`
takes its snapshot, and the rotation stores the next session before the update comes to the old one. -/
def rotatesDuringReset : List (Action ℕ) :=
  [.request (.login 1), .step 0 0, .step 0 0,
   .request .requestReset, .step 1 0, .step 1 0, .step 1 0, .step 1 0,
   .request (.completeReset 0 2), .step 2 0, .step 2 0, .step 2 0, .step 2 0, .step 2 0,
   .request (.refresh 0), .step 3 0, .step 3 0, .step 3 0, .step 3 0, .step 3 0,
   .step 2 0, .step 3 0, .step 2 0]

/-- The first session has been rotated to the second, which is live. -/
def lives (s : State ℕ ℕ) : Bool :=
  s.refreshTokens.map (·.row) == [⟨604800000, some 0, .login 0⟩, ⟨604800000, none, .rotation 0⟩] && s.now == 0

/-- The reset is about to be committed, and leaves a session that comes from one before it. -/
def misses (s : State ℕ ℕ) : Bool :=
  (s.calls[2]?.any fun call => call.revokes.isSome) && (s.next numbers (.step 2 0)).any lives

/-- The session that the reset has not seen outlives it. -/
theorem rotation_survives : ¬ Complete (Step numbers) sampleStart := by
  intro h
  obtain ⟨s, hrun, hmisses⟩ := Reaches.exists_of_play (State.next numbers) (fun _ _ => true) sampleStart rotatesDuringReset
    (fun s => misses s = true) (by decide)
  simp only [misses, Bool.and_eq_true, Option.any_eq_true] at hmisses
  obtain ⟨⟨call, hcall, hrevokes⟩, s', hstep, hlives⟩ := hmisses
  simp only [lives, Bool.and_eq_true, beq_iff_eq] at hlives
  obtain ⟨hrows, hnow⟩ := hlives
  have hrow (i : ℕ) (row : RefreshToken) (hi : (s'.refreshTokens.map (·.row))[i]? = some row) :
      ∃ u, s'.refreshTokens[i]? = some u ∧ u.row = row := by
    simpa using hi
  obtain ⟨u, hu, -⟩ := hrow 0 _ (by rw [hrows]; rfl)
  obtain ⟨v, hv, hvrow⟩ := hrow 1 _ (by rw [hrows]; rfl)
  have hlive : v.row.Live s'.now := by
    rw [hvrow, hnow]
    exact ⟨rfl, by decide⟩
  have hdescends : Descends s'.refreshTokens 0 1 := .rotated .self hv (by rw [hvrow])
  have hbefore := (h.ended s s' s' 2 0 call hrun.of_guarded hcall hrevokes hstep (.refl s') 0 1 u v hu hv hlive hdescends).1
  have hlength' := congrArg List.length hrows
  simp at hlength'
  omega

end Sample

end WebAudit.Auth
