import WebAudit.Auth.Locks

/-!
# One link for a purpose

`requestReset` and `resendVerification` both retire the links of their purpose and then store a new one,
but only the latter locks the user first. A link for verification is always the only one; a link to
reset the password is, where no request has missed one that another has stored since it retired those
before (`one_link`). A link is used once, and a call that refuses a link changes nothing.
-/

namespace WebAudit.Auth

open WebAudit.Lib

variable {Password Hash : Type} {p : Platform Password Hash} {s s' : State Password Hash} {a : Action Password}
  {me choice : ℕ} {call call' : Call Password Hash} {change : Change Hash} {w : Writes Hash} {purpose : Purpose}

/-! ### What is asked -/

def EmailToken.live (now : ℤ) (row : EmailToken) : Bool := unused row && !(row.expiresAt < now)

/-- At most one link of a purpose works. -/
def OneLive (s : State Password Hash) (purpose : Purpose) : Prop :=
  ∀ (i j : ℕ) u v, s.emailTokens[i]? = some u → s.emailTokens[j]? = some v → u.row.purpose = purpose → v.row.purpose = purpose →
    u.row.live s.now = true → v.row.live s.now = true → i = j

def Call.outcome : Call Password Hash → Option Outcome
  | .login _ (.done outcome) | .refresh _ (.done outcome) | .logout _ (.done outcome) | .requestReset (.done outcome)
  | .completeReset _ _ (.done outcome) | .verifyEmail _ (.done outcome) | .resendVerification _ (.done outcome) => some outcome
  | _ => none

/-- The link that a call has completed with. -/
def Call.completed : Call Password Hash → Option ℕ
  | .completeReset raw _ (.done .ok) | .verifyEmail raw (.done .ok) => some raw
  | _ => none

/-- What is asked of the runs from `s₀` whose steps are `R`. -/
structure OneLink (R : State Password Hash → Action Password → State Password Hash → Prop) (s₀ : State Password Hash) : Prop where
  reset : ∀ s, Reaches R s₀ s → OneLive s .reset
  verify : ∀ s, Reaches R s₀ s → OneLive s .verify
  once : ∀ s, Reaches R s₀ s → ∀ (me other : ℕ) call call' raw, s.calls[me]? = some call → s.calls[other]? = some call' →
    call.completed = some raw → call'.completed = some raw → me = other
  /-- No step of a call that ends so has changed what is committed. -/
  unchanged : ∀ s s' s'' me choice call, Reaches R s₀ s → R s (.step me choice) s' → Reaches R s' s'' →
    s''.calls[me]? = some call → call.outcome = some .tokenInvalid →
    s'.user = s.user ∧ s'.emailTokens.rows = s.emailTokens.rows ∧ s'.refreshTokens.rows = s.refreshTokens.rows

/-- No request stores a link while one works that it has not seen. -/
def State.alone (s : State Password Hash) : Action Password → Bool
  | .step me _ =>
    match s.calls[me]? with
    | some (.requestReset (.issuing (.committing _ seen _ _))) =>
      (s.emailTokens.drop seen).all fun u => !(u.row.purpose == .reset && u.row.live s.now)
    | _ => true
  | _ => true

/-! ### The links after a step -/

/-- A link is what it was, and stays used, and a new one is what a transaction has stored. -/
theorem change_link {j : ℕ} {u' : Tuple EmailToken} (h : (s.change me change).emailTokens[j]? = some u') :
    (∃ u, s.emailTokens[j]? = some u ∧ u'.row.purpose = u.row.purpose ∧ u'.row.expiresAt = u.row.expiresAt ∧
        (unused u'.row = true → unused u.row = true)) ∨
      j = s.emailTokens.length ∧ ∃ w, change = .commits w ∧ w.emailToken = some u'.row := by
  cases change with
  | stays => exact .inl ⟨u', h, rfl, rfl, id⟩
  | locksRefreshToken i => exact .inl ⟨u', h, rfl, rfl, id⟩
  | locksUser => exact .inl ⟨u', h, rfl, rfl, id⟩
  | locksEmailToken i =>
    rcases lock_cases h with ⟨rfl, u, hu, rfl⟩ | ⟨-, hu⟩
    · exact .inl ⟨u, hu, rfl, rfl, id⟩
    · exact .inl ⟨u', hu, rfl, rfl, id⟩
  | commits w =>
    rcases insertSome_cases _ h with ⟨rfl, hrow⟩ | ⟨-, hu⟩
    · exact .inr ⟨commit_length, w, rfl, hrow⟩
    · obtain ⟨v, hv, ⟨-, rfl⟩ | ⟨-, rfl⟩⟩ := commit_cases hu
      · exact .inl ⟨v, hv, rfl, rfl, unused_use⟩
      · exact .inl ⟨u', hv, rfl, rfl, id⟩

theorem EmailToken.live_iff {now : ℤ} {row : EmailToken} : row.live now = true ↔ unused row = true ∧ now ≤ row.expiresAt := by
  simp [EmailToken.live]

/-- What one stores is the only one that works, when it has retired all that it has seen and has missed none. -/
theorem only_link {seen i : ℕ} {usedAt : ℤ} {u' : Tuple EmailToken} (hswept : Swept (outstanding purpose) s.emailTokens me ⟨[], seen⟩)
    (husedAt : w.usedAt = some usedAt)
    (hlate : ∀ (i : ℕ) u, seen ≤ i → s.emailTokens[i]? = some u → u.row.purpose = purpose → u.row.live s.now = false)
    (hu' : (s.change me (.commits w)).emailTokens[i]? = some u') (hpurpose : u'.row.purpose = purpose)
    (hlive : u'.row.live s.now = true) : i = s.emailTokens.length := by
  obtain ⟨hunused, hexpires⟩ := EmailToken.live_iff.mp hlive
  rcases change_link hu' with ⟨u, hu, hpurpose', hexpires', hkeeps⟩ | ⟨rfl, -⟩
  · exfalso
    by_cases hi : i < seen
    · have hat : (s.emailTokens.commit me (use w.usedAt))[i]? = some u' := by
        rcases insertSome_cases (s.emailTokens.commit me (use w.usedAt)) hu' with ⟨heq, -⟩ | ⟨-, hat⟩
        · rw [commit_length] at heq
          exact absurd (List.getElem?_eq_some_iff.mp hu).1 (by omega)
        · exact hat
      have hretired := hswept.commit (f := use w.usedAt) (fun row => ?_) i u' hi hat
      · rw [outstanding_iff.mpr ⟨hpurpose, hunused⟩] at hretired
        cases hretired
      · rw [husedAt]
        refine (Bool.not_eq_true _).mp fun h => ?_
        cases (unused_use_some usedAt row).symm.trans (outstanding_iff.mp h).2
    · have hdead := hlate i u (not_lt.mp hi) hu (hpurpose' ▸ hpurpose)
      rw [EmailToken.live_iff.mpr ⟨hkeeps hunused, hexpires' ▸ hexpires⟩] at hdead
      cases hdead
  · rfl

variable (me change) in
theorem OneLive.changed (h : OneLive s purpose)
    (hstored : ∀ w row, change = .commits w → w.emailToken = some row → row.purpose = purpose →
      ∀ (i : ℕ) u', (s.change me change).emailTokens[i]? = some u' → u'.row.purpose = purpose → u'.row.live s.now = true →
        i = s.emailTokens.length) :
    ∀ (i j : ℕ) u v, (s.change me change).emailTokens[i]? = some u → (s.change me change).emailTokens[j]? = some v →
      u.row.purpose = purpose → v.row.purpose = purpose → u.row.live s.now = true → v.row.live s.now = true → i = j := by
  intro i j u' v' hu' hv' hpu hpv hlu hlv
  obtain ⟨hunused, hexpires⟩ := EmailToken.live_iff.mp hlu
  obtain ⟨hunused', hexpires'⟩ := EmailToken.live_iff.mp hlv
  rcases change_link hu' with ⟨u, hu, hpurpose, hsame, hkeeps⟩ | ⟨rfl, w, hw, hrow⟩
  · rcases change_link hv' with ⟨v, hv, hpurpose', hsame', hkeeps'⟩ | ⟨rfl, w, hw, hrow⟩
    · exact h i j u v hu hv (hpurpose ▸ hpu) (hpurpose' ▸ hpv) (EmailToken.live_iff.mpr ⟨hkeeps hunused, hsame ▸ hexpires⟩)
        (EmailToken.live_iff.mpr ⟨hkeeps' hunused', hsame' ▸ hexpires'⟩)
    · exact hstored w v'.row hw hrow hpv i u' hu' hpu hlu
  · exact (hstored w u'.row hw hrow hpu j v' hv' hpv hlv).symm

/-- Time passes. -/
theorem OneLive.later (h : OneLive s purpose) (ms : ℕ) : OneLive { s with now := s.now + ms } purpose := by
  have hlive {row : EmailToken} (hrow : row.live (s.now + ms) = true) : row.live s.now = true := by
    obtain ⟨hunused, hexpires⟩ := EmailToken.live_iff.mp hrow
    exact EmailToken.live_iff.mpr ⟨hunused, by omega⟩
  exact fun i j u v hu hv hpu hpv hlu hlv => h i j u v hu hv hpu hpv (hlive hlu) (hlive hlv)

/-- **Links for verification**: who stores one has locked the user since before it retired the others. -/
theorem verify_step (h : OneLive s .verify) (hholds : AllHold s) (hstep : Step p s a s') : OneLive s' .verify := by
  cases step_happens hstep with
  | requests r => exact h
  | ticks ms => exact h.later ms
  | @moves _ me call call' change hcall hmoves =>
    have hallowed := (hmoves.knows (hholds _ _ hcall)).1
    have hnow : (s.change me change).now = s.now := by
      cases change <;> rfl
    have hchanged := h.changed me change fun w row hcommits hrow hpurpose i u' hu' hpu hlu => ?_
    · intro i j u v hu hv hpu hpv hlu hlv
      exact hchanged i j u v hu hv hpu hpv (hnow ▸ hlu) (hnow ▸ hlv)
    · subst hcommits
      obtain ⟨-, pendingToken, usedAt, seen, expiresAt, createdAt, rfl⟩ := hallowed.verify row hrow hpurpose
      obtain ⟨-, hswept, hlatest⟩ := hholds _ _ hcall
      cases hmoves with
      | goes hnext =>
        cases hnext
        exact only_link hswept rfl (fun i u hi hu hverify => absurd hverify (hlatest i u hi hu)) hu' hpu hlu
      | fails hfails => cases hrow

theorem alone_requestReset {usedAt expiresAt createdAt : ℤ} {seen : ℕ}
    (hcall : s.calls[me]? = some (.requestReset (.issuing (.committing usedAt seen expiresAt createdAt))))
    (h : s.alone (.step me choice) = true) :
    ∀ (i : ℕ) u, seen ≤ i → s.emailTokens[i]? = some u → u.row.purpose = .reset → u.row.live s.now = false := by
  unfold State.alone at h
  dsimp only at h
  rw [hcall] at h
  intro i u hi hu hreset
  have hmem : u ∈ s.emailTokens.drop seen := by
    refine List.mem_iff_getElem?.mpr ⟨i - seen, ?_⟩
    rw [List.getElem?_drop, Nat.add_sub_cancel' hi]
    exact hu
  simpa [hreset] using List.all_eq_true.mp h u hmem

/-- **Links to reset the password**, where none has been missed. -/
theorem reset_step (h : OneLive s .reset) (hholds : AllHold s) (hstep : Step p s a s') (halone : s.alone a = true) :
    OneLive s' .reset := by
  cases step_happens hstep with
  | requests r => exact h
  | ticks ms => exact h.later ms
  | @moves _ me call call' change hcall hmoves =>
    have hallowed := (hmoves.knows (hholds _ _ hcall)).1
    have hnow : (s.change me change).now = s.now := by
      cases change <;> rfl
    have hchanged := h.changed me change fun w row hcommits hrow hpurpose i u' hu' hpu hlu => ?_
    · intro i j u v hu hv hpu hpv hlu hlv
      exact hchanged i j u v hu hv hpu hpv (hnow ▸ hlu) (hnow ▸ hlv)
    · subst hcommits
      obtain ⟨usedAt, seen, expiresAt, createdAt, rfl⟩ := hallowed.reset row hrow hpurpose
      have hswept := hholds _ _ hcall
      cases hmoves with
      | goes hnext =>
        cases hnext
        exact only_link hswept rfl (alone_requestReset hcall halone) hu' hpu hlu
      | fails hfails => cases hrow

/-! ### A link is used once -/

/-- Who completes with a link has it locked, and uses it. -/
theorem next_completed {raw : ℕ} (hholds : call.Holds s me) (h : call.next p s choice = some (call', change))
    (hcompleted : call'.completed = some raw) :
    Held unused s.emailTokens me raw ∧ ∃ w, change = .commits w ∧ w.usedAt.isSome = true := by
  cases call with
  | completeReset raw' newPassword pc =>
    obtain ⟨⟨pc', change'⟩, hnext, heq⟩ := Option.map_eq_some_iff.mp h
    cases heq
    cases pc with
    | revoking hash usedAt revokedAt cursor =>
      unfold Auth.completeReset at hnext
      dsimp only at hnext
      split at hnext
      · cases hnext
        cases hcompleted
        exact ⟨hholds.1, _, rfl, rfl⟩
      · obtain ⟨⟨cursor', locks⟩, -, heq⟩ := Option.map_eq_some_iff.mp hnext
        cases heq
        cases hcompleted
    | _ =>
      unfold Auth.completeReset at hnext
      dsimp only at hnext
      repeat' split at hnext
      all_goals cases hnext
      all_goals cases hcompleted
  | verifyEmail raw' pc =>
    obtain ⟨⟨pc', change'⟩, hnext, heq⟩ := Option.map_eq_some_iff.mp h
    cases heq
    cases pc with
    | committing now =>
      cases hnext
      cases hcompleted
      exact ⟨hholds, _, rfl, rfl⟩
    | _ =>
      unfold Auth.verifyEmail at hnext
      dsimp only at hnext
      repeat' split at hnext
      all_goals cases hnext
      all_goals cases hcompleted
  | _ =>
    obtain ⟨⟨pc', change'⟩, -, heq⟩ := Option.map_eq_some_iff.mp h
    cases heq
    cases hcompleted

/-- The links that calls have completed with are used, and no two calls have completed with one. -/
structure Completions (s : State Password Hash) : Prop where
  used : ∀ (me : ℕ) call raw, s.calls[me]? = some call → call.completed = some raw →
    ∃ u, s.emailTokens[raw]? = some u ∧ unused u.row = false
  once : ∀ (me other : ℕ) call call' raw, s.calls[me]? = some call → s.calls[other]? = some call' → call.completed = some raw →
    call'.completed = some raw → me = other

theorem change_used {raw : ℕ} {u : Tuple EmailToken} (hu : s.emailTokens[raw]? = some u) (hused : unused u.row = false) :
    ∃ u', (s.change me change).emailTokens[raw]? = some u' ∧ unused u'.row = false := by
  have hlt : raw < (s.change me change).emailTokens.length := by
    have hraw := (List.getElem?_eq_some_iff.mp hu).1
    cases change with
    | locksEmailToken i => exact lock_length.symm ▸ hraw
    | commits w => exact (commit_length.symm ▸ hraw : _ < _).trans_le insertSome_length
    | _ => exact hraw
  refine ⟨_, List.getElem?_eq_getElem hlt, (Bool.not_eq_true _).mp fun hunused => ?_⟩
  rcases change_link (List.getElem?_eq_getElem hlt) with ⟨v, hv, -, -, hkeeps⟩ | ⟨rfl, -⟩
  · cases hu.symm.trans hv
    rw [hkeeps hunused] at hused
    cases hused
  · exact absurd (List.getElem?_eq_some_iff.mp hu).1 (lt_irrefl _)

theorem used_of_held {raw : ℕ} (hheld : Held unused s.emailTokens me raw) (hused : w.usedAt.isSome = true) :
    ∃ u', (s.change me (.commits w)).emailTokens[raw]? = some u' ∧ unused u'.row = false := by
  obtain ⟨usedAt, hsome⟩ := Option.isSome_iff_exists.mp hused
  obtain ⟨u, hu, hxmax, -⟩ := hheld
  have hlt : raw < (s.change me (.commits w)).emailTokens.length :=
    (commit_length.symm ▸ (List.getElem?_eq_some_iff.mp hu).1 : _ < _).trans_le insertSome_length
  refine ⟨_, List.getElem?_eq_getElem hlt, ?_⟩
  rcases insertSome_cases (s.emailTokens.commit me (use w.usedAt)) (List.getElem?_eq_getElem hlt) with ⟨heq, -⟩ | ⟨-, hv⟩
  · rw [commit_length] at heq
    exact absurd (List.getElem?_eq_some_iff.mp hu).1 (by omega)
  · obtain ⟨v, hv', ⟨-, heq⟩ | ⟨hother, -⟩⟩ := commit_cases hv
    · rw [heq, hsome]
      exact unused_use_some usedAt v.row
    · cases hu.symm.trans hv'
      exact absurd hxmax hother

theorem fails_completed (h : call.fails = some call') : call'.completed = none := by
  cases call with
  | login password pc => cases pc <;> cases h <;> rfl
  | refresh raw pc => cases pc <;> cases h <;> rfl
  | logout raw pc => cases pc <;> cases h <;> rfl
  | requestReset pc => cases pc <;> cases h <;> rfl
  | completeReset raw newPassword pc => cases pc <;> cases h <;> rfl
  | verifyEmail raw pc => cases pc <;> cases h <;> rfl
  | resendVerification pendingToken pc => cases pc <;> cases h <;> rfl

theorem completions_step (h : Completions s) (hholds : AllHold s) (hstep : Step p s a s') : Completions s' := by
  cases step_happens hstep with
  | requests r =>
    have hnone : (r.call : Call Password Hash).completed = none := by
      cases r <;> rfl
    have hold {me : ℕ} {call : Call Password Hash} {raw : ℕ} (hcall : (s.calls ++ [r.call])[me]? = some call)
        (hcompleted : call.completed = some raw) : s.calls[me]? = some call := by
      rcases getElem?_concat_cases hcall with rfl | hcall
      · cases hnone.symm.trans hcompleted
      · exact hcall
    exact ⟨fun me call raw hcall hc => h.used me call raw (hold hcall hc) hc,
      fun me other call call' raw hcall hcall' hc hc' => h.once me other call call' raw (hold hcall hc) (hold hcall' hc') hc hc'⟩
  | ticks ms => exact ⟨h.used, h.once⟩
  | @moves _ mover before after change hcall hmoves =>
    -- the one that moves has completed just now, with a link that was unused
    have hmover {raw : ℕ} (hcompleted : after.completed = some raw) :
        Held unused s.emailTokens mover raw ∧ ∃ w, change = .commits w ∧ w.usedAt.isSome = true := by
      cases hmoves with
      | goes hnext => exact next_completed (hholds _ _ hcall) hnext hcompleted
      | fails hfails => cases (fails_completed hfails).symm.trans hcompleted
    have hfresh {raw other : ℕ} {call : Call Password Hash} (hcompleted : after.completed = some raw)
        (hother : s.calls[other]? = some call) (hc : call.completed = some raw) : False := by
      obtain ⟨u, hu, hused⟩ := h.used other call raw hother hc
      obtain ⟨v, hv, -, hunused⟩ := (hmover hcompleted).1
      cases hu.symm.trans hv
      cases hused.symm.trans hunused
    refine ⟨fun me call raw hc hcompleted => ?_, fun me other call call' raw hc hc' hcompleted hcompleted' => ?_⟩
    · rcases getElem?_set_cases hcall hc with ⟨rfl, rfl⟩ | ⟨-, hc⟩
      · obtain ⟨hheld, w, rfl, hused⟩ := hmover hcompleted
        exact used_of_held hheld hused
      · obtain ⟨u, hu, hused⟩ := h.used me call raw hc hcompleted
        exact change_used hu hused
    · rcases getElem?_set_cases hcall hc with ⟨rfl, rfl⟩ | ⟨-, hold⟩
      · rcases getElem?_set_cases hcall hc' with ⟨rfl, -⟩ | ⟨-, hold'⟩
        · rfl
        · exact (hfresh hcompleted hold' hcompleted').elim
      · rcases getElem?_set_cases hcall hc' with ⟨rfl, rfl⟩ | ⟨-, hold'⟩
        · exact (hfresh hcompleted' hold hcompleted).elim
        · exact h.once me other call call' raw hold hold' hcompleted hcompleted'

/-! ### A link that is refused -/

theorem issue_commits {ttlMs : ℤ} {pc : IssuePc} {next : Option IssuePc} (h : issue s purpose ttlMs choice pc = some (next, .commits w)) :
    next = none := by
  cases pc with
  | superseding usedAt cursor =>
    unfold issue at h
    dsimp only at h
    split at h
    · cases h
    · obtain ⟨⟨cursor', locks⟩, -, heq⟩ := Option.map_eq_some_iff.mp h
      cases locks <;> cases heq
  | creating usedAt seen => cases h
  | committing usedAt seen expiresAt createdAt =>
    cases h
    rfl

/-- What a call commits it does not refuse. -/
theorem next_commits (h : call.next p s choice = some (call', .commits w)) :
    ∃ outcome, call'.outcome = some outcome ∧ outcome ≠ .tokenInvalid := by
  cases call with
  | login password pc =>
    obtain ⟨⟨pc', change'⟩, hnext, heq⟩ := Option.map_eq_some_iff.mp h
    cases heq
    cases pc with
    | creating checked =>
      cases hnext
      exact ⟨_, rfl, nofun⟩
    | _ =>
      unfold Auth.login at hnext
      dsimp only at hnext
      repeat' split at hnext
      all_goals cases hnext
  | refresh raw pc =>
    obtain ⟨⟨pc', change'⟩, hnext, heq⟩ := Option.map_eq_some_iff.mp h
    cases heq
    cases pc with
    | committing revokedAt expiresAt =>
      cases hnext
      exact ⟨_, rfl, nofun⟩
    | revoking revokedAt cursor =>
      unfold Auth.refresh at hnext
      dsimp only at hnext
      split at hnext
      · cases hnext
        exact ⟨_, rfl, nofun⟩
      · obtain ⟨⟨cursor', locks⟩, -, heq⟩ := Option.map_eq_some_iff.mp hnext
        cases locks <;> cases heq
    | _ =>
      unfold Auth.refresh at hnext
      dsimp only at hnext
      repeat' split at hnext
      all_goals cases hnext
  | logout raw pc =>
    obtain ⟨⟨pc', change'⟩, hnext, heq⟩ := Option.map_eq_some_iff.mp h
    cases heq
    cases pc with
    | committing revokedAt =>
      cases hnext
      exact ⟨_, rfl, nofun⟩
    | _ =>
      unfold Auth.logout at hnext
      dsimp only at hnext
      repeat' split at hnext
      all_goals cases hnext
  | requestReset pc =>
    obtain ⟨⟨pc', change'⟩, hnext, heq⟩ := Option.map_eq_some_iff.mp h
    cases heq
    cases pc with
    | issuing pc =>
      obtain ⟨⟨pc', change'⟩, hissue, heq⟩ := Option.map_eq_some_iff.mp hnext
      cases heq
      obtain rfl := issue_commits hissue
      exact ⟨_, rfl, nofun⟩
    | _ => cases hnext
  | completeReset raw newPassword pc =>
    obtain ⟨⟨pc', change'⟩, hnext, heq⟩ := Option.map_eq_some_iff.mp h
    cases heq
    cases pc with
    | revoking hash usedAt revokedAt cursor =>
      unfold Auth.completeReset at hnext
      dsimp only at hnext
      split at hnext
      · cases hnext
        exact ⟨_, rfl, nofun⟩
      · obtain ⟨⟨cursor', locks⟩, -, heq⟩ := Option.map_eq_some_iff.mp hnext
        cases locks <;> cases heq
    | _ =>
      unfold Auth.completeReset at hnext
      dsimp only at hnext
      repeat' split at hnext
      all_goals cases hnext
  | verifyEmail raw pc =>
    obtain ⟨⟨pc', change'⟩, hnext, heq⟩ := Option.map_eq_some_iff.mp h
    cases heq
    cases pc with
    | committing now =>
      cases hnext
      exact ⟨_, rfl, nofun⟩
    | _ =>
      unfold Auth.verifyEmail at hnext
      dsimp only at hnext
      repeat' split at hnext
      all_goals cases hnext
  | resendVerification pendingToken pc =>
    obtain ⟨⟨pc', change'⟩, hnext, heq⟩ := Option.map_eq_some_iff.mp h
    cases heq
    cases pc with
    | cooling =>
      unfold Auth.resendVerification at hnext
      dsimp only at hnext
      split at hnext <;> cases hnext
      exact ⟨_, rfl, nofun⟩
    | issuing pc =>
      obtain ⟨⟨pc', change'⟩, hissue, heq⟩ := Option.map_eq_some_iff.mp hnext
      cases heq
      obtain rfl := issue_commits hissue
      exact ⟨_, rfl, nofun⟩
    | _ =>
      unfold Auth.resendVerification at hnext
      dsimp only at hnext
      repeat' split at hnext
      all_goals cases hnext

/-- What is not a commit shows nothing. -/
theorem change_hides (h : ∀ w, change ≠ .commits w) :
    (s.change me change).user = s.user ∧ (s.change me change).emailTokens.rows = s.emailTokens.rows ∧
      (s.change me change).refreshTokens.rows = s.refreshTokens.rows := by
  cases change with
  | stays => exact ⟨rfl, rfl, rfl⟩
  | locksEmailToken i => exact ⟨rfl, rows_lock, rfl⟩
  | locksRefreshToken i => exact ⟨rfl, rfl, rows_lock⟩
  | locksUser => exact ⟨rfl, rfl, rfl⟩
  | commits w => exact absurd rfl (h w)

theorem outcome_next (h : call.next p s choice = some (call', change)) : call.outcome = none := by
  cases call with
  | login password pc => cases pc <;> first | rfl | cases h
  | refresh raw pc => cases pc <;> first | rfl | cases h
  | logout raw pc => cases pc <;> first | rfl | cases h
  | requestReset pc => cases pc <;> first | rfl | cases h
  | completeReset raw newPassword pc => cases pc <;> first | rfl | cases h
  | verifyEmail raw pc => cases pc <;> first | rfl | cases h
  | resendVerification pendingToken pc => cases pc <;> first | rfl | cases h

theorem outcome_fails (h : call.fails = some call') : call.outcome = none := by
  cases call with
  | login password pc => cases pc <;> first | rfl | cases h
  | refresh raw pc => cases pc <;> first | rfl | cases h
  | logout raw pc => cases pc <;> first | rfl | cases h
  | requestReset pc => cases pc <;> first | rfl | cases h
  | completeReset raw newPassword pc => cases pc <;> first | rfl | cases h
  | verifyEmail raw pc => cases pc <;> first | rfl | cases h
  | resendVerification pendingToken pc => cases pc <;> first | rfl | cases h

/-- A call that has ended does nothing more. -/
theorem outcome_step {outcome : Outcome} (hcall : s.calls[me]? = some call) (houtcome : call.outcome = some outcome)
    (hstep : Step p s a s') : s'.calls[me]? = some call := by
  cases step_happens hstep with
  | requests r =>
    have hlt := (List.getElem?_eq_some_iff.mp hcall).1
    exact (List.getElem?_append_left hlt).trans hcall
  | ticks ms => exact hcall
  | @moves _ mover before after change hmover hmoves =>
    refine (List.getElem?_set_ne ?_).trans hcall
    rintro rfl
    cases hmover.symm.trans hcall
    have hnone : call.outcome = none := by
      cases hmoves with
      | goes hnext => exact outcome_next hnext
      | fails hfails => exact outcome_fails hfails
    cases hnone.symm.trans houtcome

theorem outcome_run {outcome : Outcome} (hcall : s.calls[me]? = some call) (houtcome : call.outcome = some outcome)
    (hrun : Reaches (Step p) s s') : s'.calls[me]? = some call :=
  hrun.inv (I := fun s => s.calls[me]? = some call) hcall fun _ _ _ h hs => outcome_step h houtcome hs

/-- **A call that refuses its link has changed nothing.** -/
theorem unchanged_of_refused {s'' : State Password Hash} (hstep : Step p s (.step me choice) s') (hrun : Reaches (Step p) s' s'')
    (hcall : s''.calls[me]? = some call) (hrefused : call.outcome = some .tokenInvalid) :
    s'.user = s.user ∧ s'.emailTokens.rows = s.emailTokens.rows ∧ s'.refreshTokens.rows = s.refreshTokens.rows := by
  cases step_happens hstep with
  | @moves _ me before after change hbefore hmoves =>
    cases hmoves with
    | goes hnext =>
      refine change_hides fun w hw => ?_
      subst hw
      obtain ⟨outcome, houtcome, hne⟩ := next_commits hnext
      have hafter : (s.calls.set me after)[me]? = some after := List.getElem?_set_self (List.getElem?_eq_some_iff.mp hbefore).1
      cases (outcome_run hafter houtcome hrun).symm.trans hcall
      exact hne (Option.some.inj (houtcome.symm.trans hrefused))

/-! ### Together -/

theorem completions_initial (user : User Hash) (now : ℤ) (emailTokens : List EmailToken) :
    Completions (initial user now emailTokens : State Password Hash) := by
  refine ⟨fun me call raw hcall => ?_, fun me other call call' raw hcall => ?_⟩ <;> cases hcall

/-- **One link**, where no request for a reset has missed one. -/
theorem one_link (p : Platform Password Hash) (user : User Hash) (now : ℤ) (emailTokens : List EmailToken)
    (hreset : OneLive (initial user now emailTokens : State Password Hash) .reset)
    (hverify : OneLive (initial user now emailTokens : State Password Hash) .verify) :
    OneLink (Guarded (Step p) fun s a _ => s.alone a = true) (initial user now emailTokens) where
  reset s hrun := by
    have hinv := hrun.inv (I := fun s => AllHold s ∧ OneLive s .reset) ⟨allHold_initial user now emailTokens, hreset⟩
      fun _ _ _ h hs => ⟨holds_step h.1 hs.1, reset_step h.2 h.1 hs.1 hs.2⟩
    exact hinv.2
  verify s hrun := by
    have hinv := hrun.inv (I := fun s => AllHold s ∧ OneLive s .verify) ⟨allHold_initial user now emailTokens, hverify⟩
      fun _ _ _ h hs => ⟨holds_step h.1 hs.1, verify_step h.2 h.1 hs.1⟩
    exact hinv.2
  once s hrun := by
    have hinv := hrun.inv (I := fun s => AllHold s ∧ Completions s)
      ⟨allHold_initial user now emailTokens, completions_initial user now emailTokens⟩
      fun _ _ _ h hs => ⟨holds_step h.1 hs.1, completions_step h.2 h.1 hs.1⟩
    exact hinv.2.once
  unchanged s s' s'' me choice call _ hstep hrun hcall hrefused := unchanged_of_refused hstep.1 hrun.of_guarded hcall hrefused

/-! ### Two requests -/

section Sample

/-- After `register`. -/
def registered : List EmailToken := [⟨.verify, 86400000, none, 0⟩, ⟨.verifyPending, 3600000, none, 0⟩]

theorem oneLive_registered (h : purpose ≠ .verifyPending) : OneLive (initial ⟨some 1, none⟩ 0 registered : State ℕ ℕ) purpose := by
  have hat (i : ℕ) (u : Tuple EmailToken) (hu : (initial ⟨some 1, none⟩ 0 registered : State ℕ ℕ).emailTokens[i]? = some u)
      (hpurpose : u.row.purpose = purpose) : i = 0 := by
    match i with
    | 0 => rfl
    | 1 =>
      cases hu
      exact absurd hpurpose.symm h
    | i + 2 => cases hu
  exact fun i j u v hu hv hpu hpv _ _ => (hat i u hu hpu).trans (hat j v hv hpv).symm

theorem one_link_registered :
    OneLive (initial ⟨some 1, none⟩ 0 registered : State ℕ ℕ) .reset ∧ OneLive (initial ⟨some 1, none⟩ 0 registered : State ℕ ℕ) .verify ∧
      OneLink (Guarded (Step numbers) fun s a _ => s.alone a = true) (initial ⟨some 1, none⟩ 0 registered) :=
  ⟨oneLive_registered nofun, oneLive_registered nofun,
    one_link numbers ⟨some 1, none⟩ 0 registered (oneLive_registered nofun) (oneLive_registered nofun)⟩

/-- Both retire what there is before either stores its link. -/
def twoRequests : List (Action ℕ) :=
  [.request .requestReset, .request .requestReset, .step 0 0, .step 1 0, .step 0 0, .step 1 0, .step 0 0, .step 1 0, .step 0 0, .step 1 0]

def twoLive (s : State ℕ ℕ) : Bool :=
  s.emailTokens.map (·.row) == [⟨.reset, 3600000, none, 0⟩, ⟨.reset, 3600000, none, 0⟩] && s.now == 0

/-- Both links work. -/
theorem both_work : ¬ OneLink (Step numbers) (initial ⟨some 1, some 0⟩ 0 []) := by
  intro h
  obtain ⟨s, hrun, htwo⟩ := Reaches.exists_of_play (State.next numbers) (fun _ _ => true) (initial ⟨some 1, some 0⟩ 0 []) twoRequests
    (fun s => twoLive s = true) (by decide)
  simp only [twoLive, Bool.and_eq_true, beq_iff_eq] at htwo
  obtain ⟨hrows, hnow⟩ := htwo
  have hrow (i : ℕ) (row : EmailToken) (hi : (s.emailTokens.map (·.row))[i]? = some row) : ∃ u, s.emailTokens[i]? = some u ∧ u.row = row := by
    simpa using hi
  obtain ⟨u, hu, hurow⟩ := hrow 0 _ (by rw [hrows]; rfl)
  obtain ⟨v, hv, hvrow⟩ := hrow 1 _ (by rw [hrows]; rfl)
  have heq := h.reset s hrun.of_guarded 0 1 u v hu hv (by rw [hurow]) (by rw [hvrow]) (by rw [hurow, hnow]; decide) (by rw [hvrow, hnow]; decide)
  cases heq

end Sample

end WebAudit.Auth
