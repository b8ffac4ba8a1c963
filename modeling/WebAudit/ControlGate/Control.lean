import WebAudit.ControlGate.Verification

/-!
# A level of control is never more than was proved

Every write after a probe goes to a row by its id, whatever has become of it since it was read. What is read off the
rows then agrees with the cached level in every run in which such a row is unrevoked when it is written to, and a row is
revoked where the level follows or another row stands (`Steady`).
-/

namespace WebAudit.ControlGate

open WebAudit.Lib
open WebAudit.Scans (ControlLevel)

variable {attested : Bool} {s s' s₀ : System} {a : Action} {pc pc' : Pc} {input : Input} {w : Option Write} {id i : ℕ}
  {row : Verification} {e : Evidence} {exhausted : Bool}

def System.Unrevoked (s : System) (id : ℕ) : Prop := ∀ row : Verification, s.verifications[id]? = some row → row.revokedAt = none

/-- The level does not rest on the row alone. -/
def System.Spare (s : System) (id : ℕ) : Prop :=
  s.controlLevel ≠ .VERIFIED ∨ (∀ row : Verification, s.verifications[id]? = some row → row.isLive = false) ∨
    ∃ (other : ℕ) (row : Verification), other ≠ id ∧ s.verifications[other]? = some row ∧ row.isLive = true

/-- No row is confirmed, and no level given, for a row revoked meanwhile; no row is revoked that the level rests on,
unless the level follows; and a probe that the bound has refused finds the bound exhausted. -/
def SteadyTurn (attested : Bool) (s : System) : Pc → Input → Prop
  | .confirming e, .go _ => s.Unrevoked e.id
  | .promoting e, .go _ => s.Unrevoked e.id
  | .raising e, .go _ => s.Unrevoked e.id
  | .stillPublished level e, .go _ => level = .VERIFIED → s.Unrevoked e.id
  | .expiring e, .go _ => s.Spare e.id
  | .revoking level e, .go _ => level ≠ attestedFloor attested ∨ s.Spare e.id
  | .settling level _, .fail => level = attestedFloor attested
  | .probingConfirmed _ _, .probed .rateLimited exhausted => exhausted = true
  | _, _ => True

def Steady (attested : Bool) (s : System) : Action → Prop
  | .call _ => True
  | .turn i input => ∀ pc, s.calls[i]? = some pc → SteadyTurn attested s pc input

/-! ### Rows -/

/-- What a write leaves of a row. -/
structure Verification.Becomes (v v' : Verification) : Prop where
  method : v'.method = v.method
  issuedAt : v'.issuedAt = v.issuedAt
  confirmed : v.confirmedAt.isSome = true → v'.confirmedAt.isSome = true

theorem Verification.Becomes.refl (v : Verification) : v.Becomes v := ⟨rfl, rfl, fun h => h⟩

/-- Every row stays, and what it becomes. -/
def Grows (s s' : System) : Prop :=
  ∀ (id : ℕ) (row : Verification), s.verifications[id]? = some row → ∃ row', s'.verifications[id]? = some row' ∧ row.Becomes row'

theorem getElem?_modify_self {rows : List Verification} {f : Verification → Verification} (h : rows[id]? = some row) :
    (rows.modify id f)[id]? = some (f row) := by
  rw [List.getElem?_modify_eq, h]
  rfl

theorem grows_modify {f : Verification → Verification} (hf : ∀ v : Verification, v.Becomes (f v)) :
    Grows s { s with verifications := s.verifications.modify id f } := by
  intro j row hrow
  by_cases hj : id = j
  · subst hj
    exact ⟨f row, getElem?_modify_self hrow, hf row⟩
  · exact ⟨row, by simp [hj, hrow], .refl row⟩

theorem grows_write (w : Option Write) : Grows s (s.write w) := by
  rcases w with _ | w
  · exact fun _ row hrow => ⟨row, hrow, .refl row⟩
  cases w with
  | supersede now =>
    intro j row hrow
    refine ⟨row.supersede now, by simp [System.write, hrow], ?_⟩
    unfold Verification.supersede
    split
    · exact ⟨rfl, rfl, fun h => h⟩
    · exact .refl row
  | issue method issuedAt =>
    intro j row hrow
    exact ⟨row, by rw [System.write, List.getElem?_append_left (List.getElem?_eq_some_iff.mp hrow).1, hrow], .refl row⟩
  | revoke id checkedAt => exact grows_modify fun v => ⟨rfl, rfl, fun h => h⟩
  | touch id checkedAt => exact grows_modify fun v => ⟨rfl, rfl, fun h => h⟩
  | confirm id checkedAt => exact grows_modify fun v => ⟨rfl, rfl, fun _ => rfl⟩
  | setLevel level => exact fun _ row hrow => ⟨row, hrow, .refl row⟩

/-! ### Calls -/

/-- The row that the evidence is about. -/
def System.Has (s : System) (e : Evidence) : Prop :=
  ∃ row : Verification, s.verifications[e.id]? = some row ∧ row.method = e.row.method ∧ row.issuedAt = e.row.issuedAt

def System.Confirmed (s : System) (id : ℕ) : Prop :=
  ∃ row : Verification, s.verifications[id]? = some row ∧ row.confirmedAt.isSome = true

theorem System.Has.grows (h : s.Has e) (hg : Grows s s') : s'.Has e := by
  obtain ⟨row, hrow, hm, hi⟩ := h
  obtain ⟨row', hrow', hb⟩ := hg e.id row hrow
  exact ⟨row', hrow', hb.method.trans hm, hb.issuedAt.trans hi⟩

theorem System.Confirmed.grows (h : s.Confirmed id) (hg : Grows s s') : s'.Confirmed id := by
  obtain ⟨row, hrow, hc⟩ := h
  obtain ⟨row', hrow', hb⟩ := hg id row hrow
  exact ⟨row', hrow', hb.confirmed hc⟩

/-- An outstanding row of which the token had not expired. -/
def Evidence.Fresh (e : Evidence) : Prop := e.row.isOutstanding = true ∧ e.checkedAt - e.row.issuedAt ≤ tokenTtlMs

/-- The call's own probe has found the token of a verification that its query had returned as outstanding and unexpired,
or as confirmed and unrevoked. -/
def Evidence.Proved (e : Evidence) : Prop := e.answer = some .published ∧ (e.Fresh ∨ e.row.isLive = true)

/-- What is known of a call by its place. -/
def System.Knows (s : System) : Pc → Prop
  | .probingPending e => s.Has e ∧ e.Fresh
  | .confirming e => s.Has e ∧ e.Fresh ∧ e.answer = some .published
  | .promoting e => s.Has e ∧ e.Proved ∧ s.Confirmed e.id
  | .probingConfirmed _ e => s.Has e ∧ e.row.isLive = true ∧ s.Confirmed e.id
  | .stillPublished _ e => s.Has e ∧ e.Proved ∧ s.Confirmed e.id
  | .raising e => s.Has e ∧ e.Proved ∧ s.Confirmed e.id
  | .done (.level level _ evidence) => level = .VERIFIED → ∃ e, evidence = some e ∧ s.Has e ∧ e.Proved ∧ s.Confirmed e.id
  | _ => True

theorem System.Knows.grows (h : s.Knows pc) (hg : Grows s s') : s'.Knows pc := by
  unfold System.Knows at h ⊢
  split <;> simp only at h
  · exact ⟨h.1.grows hg, h.2⟩
  · exact ⟨h.1.grows hg, h.2⟩
  · exact ⟨h.1.grows hg, h.2.1, h.2.2.grows hg⟩
  · exact ⟨h.1.grows hg, h.2.1, h.2.2.grows hg⟩
  · exact ⟨h.1.grows hg, h.2.1, h.2.2.grows hg⟩
  · exact ⟨h.1.grows hg, h.2.1, h.2.2.grows hg⟩
  · intro hlevel
    obtain ⟨e, he, hhas, hp, hc⟩ := h hlevel
    exact ⟨e, he, hhas.grows hg, hp, hc.grows hg⟩
  · trivial

theorem attestedFloor_ne (attested : Bool) : attestedFloor attested ≠ .VERIFIED := by cases attested <;> decide

/-- A call goes to a place of which it knows what there is to know. -/
theorem Turns.knows (ht : Turns attested s pc input w pc') (h : s.Knows pc) : (s.write w).Knows pc' := by
  have hg : Grows s (s.write w) := grows_write w
  cases ht with
  | outstanding hrow hout httl => exact ⟨⟨_, hrow, rfl, rfl⟩, hout, httl⟩
  | pendingPublished => exact ⟨h.1, h.2, rfl⟩
  | @confirm e now =>
    obtain ⟨hhas, hfresh, hanswer⟩ := h
    obtain ⟨row, hrow, -⟩ := id hhas
    exact ⟨hhas.grows hg, ⟨hanswer, .inl hfresh⟩, _, getElem?_modify_self hrow, rfl⟩
  | promote => exact fun _ => ⟨_, rfl, h.1.grows hg, h.2.1, h.2.2.grows hg⟩
  | live hrow hlive => exact ⟨⟨_, hrow, rfl, rfl⟩, hlive, _, hrow, (Bool.and_eq_true_iff.mp hlive).1⟩
  | confirmedPublished => exact ⟨h.1, ⟨rfl, .inr h.2.1⟩, h.2.2⟩
  | inconclusive => exact fun hlevel => absurd hlevel (attestedFloor_ne attested)
  | settled => exact fun hlevel => absurd hlevel (attestedFloor_ne attested)
  | settle => exact fun hlevel => absurd hlevel (attestedFloor_ne attested)
  | touchVerified => exact fun _ => ⟨_, rfl, h.1.grows hg, h.2.1, h.2.2.grows hg⟩
  | touchLow => exact ⟨h.1.grows hg, h.2.1, h.2.2.grows hg⟩
  | raise => exact fun _ => ⟨_, rfl, h.1.grows hg, h.2.1, h.2.2.grows hg⟩
  | _ => trivial

/-! ### The cached level -/

/-- A call is about to lower the level. -/
def System.Lowering (attested : Bool) (s : System) : Prop :=
  ∃ (i : ℕ) (level : ControlLevel) (demoted : Bool), s.calls[i]? = some (.settling level demoted) ∧ level ≠ attestedFloor attested

/-- What is kept. -/
structure Kept (attested : Bool) (s : System) : Prop where
  level : s.controlLevel = .VERIFIED → s.Verified ∨ s.Lowering attested
  calls : ∀ pc ∈ s.calls, s.Knows pc

/-- A live row that a write leaves live. -/
theorem verified_modify {f : Verification → Verification} (h : s.Verified) (hf : ∀ v : Verification, v.isLive = true → (f v).isLive = true) :
    System.Verified { s with verifications := s.verifications.modify id f } := by
  obtain ⟨j, row, hrow, hlive⟩ := h
  by_cases hj : id = j
  · subst hj
    exact ⟨id, f row, getElem?_modify_self hrow, hf row hlive⟩
  · exact ⟨j, row, by simp [hj, hrow], hlive⟩

theorem verified_supersede {now : ℤ} (h : s.Verified) : (s.write (some (.supersede now))).Verified := by
  obtain ⟨j, row, hrow, hlive⟩ := h
  refine ⟨j, row, ?_, hlive⟩
  have hkeep : row.supersede now = row := by
    unfold Verification.supersede
    rw [if_neg]
    intro hout
    simp only [Verification.isLive, Verification.isOutstanding, Bool.and_eq_true] at hlive hout
    simp [Option.isNone_iff_eq_none.mp hout.1] at hlive
  simp [System.write, hrow, hkeep]

/-- A revocation that spares the level. -/
theorem verified_revoke {now : ℤ} (h : s.Verified) (hlevel : s.controlLevel = .VERIFIED) (hspare : s.Spare id) :
    (s.write (some (.revoke id now))).Verified := by
  have other : ∀ (j : ℕ) (row : Verification), j ≠ id → s.verifications[j]? = some row → row.isLive = true →
      (s.write (some (.revoke id now))).Verified := fun j row hj hrow hlive =>
    ⟨j, row, by simp [System.write, Ne.symm hj, hrow], hlive⟩
  rcases hspare with hne | hdead | ⟨j, row, hj, hrow, hlive⟩
  · exact absurd hlevel hne
  · obtain ⟨j, row, hrow, hlive⟩ := h
    refine other j row ?_ hrow hlive
    rintro rfl
    simp [hdead row hrow] at hlive
  · exact other j row hj hrow hlive

/-- A row that is confirmed and unrevoked. -/
theorem verified_of_confirmed (h : s.Confirmed id) (hu : s.Unrevoked id) : s.Verified := by
  obtain ⟨row, hrow, hc⟩ := h
  exact ⟨id, row, hrow, by simp [Verification.isLive, hc, hu row hrow]⟩

theorem lowering_set (h : s.Lowering attested) (hi : s.calls[i]? = some pc)
    (hpc : ∀ level demoted, pc = .settling level demoted → level = attestedFloor attested) {u : System}
    (hu : u.calls = s.calls.set i pc') : u.Lowering attested := by
  obtain ⟨j, level, demoted, hj, hlevel⟩ := h
  have hne : i ≠ j := by
    rintro rfl
    exact hlevel (hpc level demoted (Option.some.inj (hi.symm.trans hj)))
  exact ⟨j, level, demoted, by rw [hu, List.getElem?_set_ne hne, hj], hlevel⟩

/-- A turn keeps the level: what it rests on stands, or the level is lowered next. -/
theorem Turns.level (ht : Turns attested s pc input w pc') (hk : s.Knows pc) (hst : SteadyTurn attested s pc input)
    (hi : s.calls[i]? = some pc) (h : s.controlLevel = .VERIFIED → s.Verified ∨ s.Lowering attested) :
    (s.write w).controlLevel = .VERIFIED →
      (s.write w).Verified ∨ System.Lowering attested { s.write w with calls := s.calls.set i pc' } := by
  have hlt := (List.getElem?_eq_some_iff.mp hi).1
  -- turns that leave the level, and what it rests on
  have keep : (s.write w).controlLevel = s.controlLevel → (s.controlLevel = .VERIFIED → s.Verified → (s.write w).Verified) →
      (∀ level demoted, pc = .settling level demoted → level = attestedFloor attested) →
      (s.write w).controlLevel = .VERIFIED →
        (s.write w).Verified ∨ System.Lowering attested { s.write w with calls := s.calls.set i pc' } := by
    intro hsame hverified hpc hlevel
    rw [hsame] at hlevel
    rcases h hlevel with hv | hl
    · exact .inl (hverified hlevel hv)
    · exact .inr (lowering_set hl hi hpc rfl)
  cases ht with
  | failed hpc =>
    refine keep rfl (fun _ hv => hv) fun level demoted hset => ?_
    subst hset
    exact hst
  | supersede => exact keep rfl (fun _ hv => verified_supersede hv) (by simp)
  | issue =>
    refine keep rfl (fun _ hv => ?_) (by simp)
    obtain ⟨j, row, hrow, hlive⟩ := hv
    exact ⟨j, row, by rw [System.write, List.getElem?_append_left (List.getElem?_eq_some_iff.mp hrow).1, hrow], hlive⟩
  | expire => exact keep rfl (fun hlevel hv => verified_revoke hv hlevel hst) (by simp)
  | touchPending => exact keep rfl (fun _ hv => verified_modify hv fun _ hlive => hlive) (by simp)
  | confirm =>
    refine keep rfl (fun _ hv => verified_modify hv fun v hlive => ?_) (by simp)
    simp only [Verification.isLive, Bool.and_eq_true] at hlive
    simp [Verification.confirm, Verification.isLive, hlive.2]
  | promote => exact fun _ => .inl (verified_of_confirmed hk.2.2 hst)
  | raise => exact fun _ => .inl (verified_of_confirmed hk.2.2 hst)
  | @revoke level e now =>
    rcases hst with hne | hspare
    · exact fun _ => .inr ⟨i, level, true, List.getElem?_set_self hlt, hne⟩
    · exact keep rfl (fun hlevel hv => verified_revoke hv hlevel hspare) (by simp)
  | settled => exact keep rfl (fun _ hv => hv) (by simp)
  | settle => exact fun hlevel => absurd hlevel (attestedFloor_ne attested)
  | touchVerified => exact keep rfl (fun _ hv => verified_modify hv fun _ hlive => hlive) (by simp)
  | touchLow => exact keep rfl (fun _ hv => verified_modify hv fun _ hlive => hlive) (by simp)
  | noneOutstanding => exact keep rfl (fun _ hv => hv) (by simp)
  | expired => exact keep rfl (fun _ hv => hv) (by simp)
  | outstanding => exact keep rfl (fun _ hv => hv) (by simp)
  | pendingPublished => exact keep rfl (fun _ hv => hv) (by simp)
  | pendingUnpublished => exact keep rfl (fun _ hv => hv) (by simp)
  | readTarget => exact keep rfl (fun _ hv => hv) (by simp)
  | noneLive => exact keep rfl (fun _ hv => hv) (by simp)
  | live => exact keep rfl (fun _ hv => hv) (by simp)
  | confirmedPublished => exact keep rfl (fun _ hv => hv) (by simp)
  | inconclusive => exact keep rfl (fun _ hv => hv) (by simp)
  | gone => exact keep rfl (fun _ hv => hv) (by simp)

/-- A step is a call that begins, or a turn. -/
theorem step_cases (hs : step attested s a s') :
    (∃ pc, a = .call pc ∧ pc.begins = true ∧ s' = { s with calls := s.calls ++ [pc] }) ∨
      ∃ i pc input w pc', a = .turn i input ∧ s.calls[i]? = some pc ∧ Turns attested s pc input w pc' ∧
        s' = { s.write w with calls := s.calls.set i pc' } := by
  unfold step next at hs
  cases a with
  | call pc =>
    dsimp only at hs
    split at hs
    · rename_i hbegins
      exact .inl ⟨pc, rfl, hbegins, (Option.some.inj hs).symm⟩
    · cases hs
  | turn i input =>
    obtain ⟨pc, hpc, hs⟩ := Option.bind_eq_some_iff.mp hs
    obtain ⟨⟨w, pc'⟩, hturn, hs⟩ := Option.map_eq_some_iff.mp hs
    exact .inr ⟨i, pc, input, w, pc', rfl, hpc, turns_of_turn hturn, hs.symm⟩

theorem Kept.step (h : Kept attested s) (hs : step attested s a s') (hst : Steady attested s a) : Kept attested s' := by
  rcases step_cases hs with ⟨pc, rfl, hbegins, rfl⟩ | ⟨i, pc, input, w, pc', rfl, hi, ht, rfl⟩
  · refine ⟨fun hlevel => ?_, fun p hp => ?_⟩
    · rcases h.level hlevel with hv | ⟨j, level, demoted, hj, hne⟩
      · exact .inl hv
      · refine .inr ⟨j, level, demoted, ?_, hne⟩
        rw [List.getElem?_append_left (List.getElem?_eq_some_iff.mp hj).1, hj]
    · rcases List.mem_append.mp hp with hp | hp
      · have := h.calls p hp
        exact this.grows fun _ row hrow => ⟨row, hrow, .refl row⟩
      · obtain rfl := List.mem_singleton.mp hp
        cases p with
        | startVerification | checkVerification | reconfirmControl => trivial
        | _ => cases hbegins
  · have hk := h.calls pc (List.mem_of_getElem? hi)
    refine ⟨ht.level hk (hst pc hi) hi h.level, fun p hp => ?_⟩
    have hsame : Grows (s.write w) { s.write w with calls := s.calls.set i pc' } := fun _ row hrow => ⟨row, hrow, .refl row⟩
    rcases List.mem_or_eq_of_mem_set hp with hp | rfl
    · exact ((h.calls p hp).grows (grows_write w)).grows hsame
    · exact (ht.knows hk).grows hsame

theorem System.Start.kept (h : s.Start) : Kept attested s := by
  refine ⟨fun hlevel => .inl (h.level hlevel), ?_⟩
  rw [h.calls]
  simp

/-! ### What each step may do -/

/-- Only a confirmation confirms. -/
theorem write_confirmedAt (hw : ∀ id now, w ≠ some (.confirm id now)) {row' : Verification} (hrow : s.verifications[id]? = some row)
    (hrow' : (s.write w).verifications[id]? = some row') : row'.confirmedAt = row.confirmedAt := by
  have modify : ∀ (f : Verification → Verification) (j : ℕ), (∀ v, (f v).confirmedAt = v.confirmedAt) →
      (s.verifications.modify j f)[id]? = some row' → row'.confirmedAt = row.confirmedAt := by
    intro f j hf hmod
    rw [List.getElem?_modify, hrow] at hmod
    obtain rfl := Option.some.inj hmod
    split
    · exact hf row
    · rfl
  rcases w with _ | w
  · obtain rfl := Option.some.inj (hrow.symm.trans hrow')
    rfl
  cases w with
  | supersede now =>
    have heq : row.supersede now = row' := by simpa [System.write, hrow] using hrow'
    subst heq
    unfold Verification.supersede
    split <;> rfl
  | issue method issuedAt =>
    rw [System.write, List.getElem?_append_left (List.getElem?_eq_some_iff.mp hrow).1] at hrow'
    obtain rfl := Option.some.inj (hrow.symm.trans hrow')
    rfl
  | revoke j checkedAt => exact modify (·.revoke checkedAt) j (fun _ => rfl) hrow'
  | touch j checkedAt => exact modify (·.touch checkedAt) j (fun _ => rfl) hrow'
  | confirm j checkedAt => exact absurd rfl (hw j checkedAt)
  | setLevel level =>
    obtain rfl := Option.some.inj (hrow.symm.trans hrow')
    rfl

/-- A revoked verification is not confirmed. -/
theorem stays_unconfirmed (hs : step attested s a s') (hst : Steady attested s a) {row' : Verification}
    (hrow : s.verifications[id]? = some row) (hrow' : s'.verifications[id]? = some row') (hrev : row.revokedAt ≠ none)
    (hnot : row.confirmedAt = none) : row'.confirmedAt = none := by
  rcases step_cases hs with ⟨pc, rfl, -, rfl⟩ | ⟨i, pc, input, w, pc', rfl, hi, ht, rfl⟩
  · obtain rfl := Option.some.inj (hrow.symm.trans hrow')
    exact hnot
  · by_cases hw : ∀ j now, w ≠ some (.confirm j now)
    · rw [write_confirmedAt hw hrow hrow', hnot]
    · cases ht with
      | @confirm e now =>
        have hu : s.Unrevoked e.id := hst _ hi
        have hne : e.id ≠ id := by
          rintro rfl
          exact hrev (hu row hrow)
        have hsame : row' = row := by simpa [System.write, hne, hrow] using hrow'.symm
        rw [hsame, hnot]
      | _ => simp at hw

/-- A level is given for a row that is confirmed and unrevoked at that moment. -/
theorem verified_when_returned (hk : Kept attested s) (hs : step attested s a s') (hst : Steady attested s a) {demoted : Bool}
    (hbefore : s.calls[i]? ≠ some (.done (.level .VERIFIED demoted (some e))))
    (hafter : s'.calls[i]? = some (.done (.level .VERIFIED demoted (some e)))) :
    ∃ row : Verification, s'.verifications[e.id]? = some row ∧ row.isLive = true := by
  rcases step_cases hs with ⟨pc, rfl, hbegins, rfl⟩ | ⟨j, pc, input, w, pc', rfl, hj, ht, rfl⟩
  · by_cases hlt : i < s.calls.length
    · have hafter' : (s.calls ++ [pc])[i]? = some (.done (.level .VERIFIED demoted (some e))) := hafter
      rw [List.getElem?_append_left hlt] at hafter'
      exact absurd hafter' hbefore
    · have hmem := List.mem_of_getElem? hafter
      rcases List.mem_append.mp hmem with hmem | hmem
      · have hafter' : (s.calls ++ [pc])[i]? = some (.done (.level .VERIFIED demoted (some e))) := hafter
        rw [List.getElem?_append_right (by omega)] at hafter'
        have := List.mem_singleton.mp (List.mem_of_getElem? hafter')
        subst this
        cases hbegins
      · have := List.mem_singleton.mp hmem
        subst this
        cases hbegins
  · have hafter' : (s.calls.set j pc')[i]? = some (.done (.level .VERIFIED demoted (some e))) := hafter
    by_cases hij : j = i
    · subst hij
      rw [List.getElem?_set_self (List.getElem?_eq_some_iff.mp hj).1] at hafter'
      have hdone : pc' = .done (.level .VERIFIED demoted (some e)) := Option.some.inj hafter'
      have hknows := hk.calls pc (List.mem_of_getElem? hj)
      have hturn := hst pc hj
      cases ht with
      | promote =>
        cases hdone
        obtain ⟨row, hrow, hc⟩ := hknows.2.2
        exact ⟨row, hrow, by simp [Verification.isLive, hc, hturn row hrow]⟩
      | raise =>
        cases hdone
        obtain ⟨row, hrow, hc⟩ := hknows.2.2
        exact ⟨row, hrow, by simp [Verification.isLive, hc, hturn row hrow]⟩
      | touchVerified =>
        cases hdone
        obtain ⟨row, hrow, hc⟩ := hknows.2.2
        exact ⟨row.touch e.checkedAt, getElem?_modify_self hrow, by
          simp [Verification.isLive, Verification.touch, hc, hturn rfl row hrow]⟩
      | _ => simp at hdone
    · rw [List.getElem?_set_ne hij] at hafter'
      exact absurd hafter' hbefore

/-- A re-check whose probe the bound has refused writes nothing, and gives no level that has to be proved. -/
theorem rateLimited_writes_nothing (hs : step attested s (.turn i (.probed .rateLimited exhausted)) s')
    (hst : Steady attested s (.turn i (.probed .rateLimited exhausted))) {level : ControlLevel}
    (hi : s.calls[i]? = some (.probingConfirmed level e)) :
    s' = { s with calls := s.calls.set i (.done (.level (attestedFloor attested) false none)) } := by
  rcases step_cases hs with ⟨pc, hpc, -⟩ | ⟨j, pc, input, w, pc', heq, hj, ht, rfl⟩
  · cases hpc
  · cases heq
    obtain rfl := Option.some.inj (hi.symm.trans hj)
    obtain rfl : exhausted = true := hst _ hi
    cases ht with
    | inconclusive => rfl

/-- All calls have returned. -/
def System.Quiescent (s : System) : Prop := ∀ pc ∈ s.calls, ∃ result, pc = .done result

/-- **A control level is never more than was proved**, in every steady run: a call gives VERIFIED by what its own probe
has found, for a row that is confirmed and unrevoked then; when no call is going on the cached level rests on a confirmed,
unrevoked verification; a revoked one does not become confirmed; and a re-check refused by the bound writes nothing. -/
theorem control_proved (h₀ : s₀.Start) (h : Reaches (Guarded (step attested) fun s a _ => Steady attested s a) s₀ s) :
    (∀ (i : ℕ) demoted evidence, s.calls[i]? = some (.done (.level .VERIFIED demoted evidence)) →
      ∃ e, evidence = some e ∧ s.Has e ∧ e.Proved) ∧
    (s.Quiescent → s.controlLevel = .VERIFIED → s.Verified) ∧
    ∀ a s', step attested s a s' → Steady attested s a →
      (∀ (i : ℕ) demoted e, s.calls[i]? ≠ some (.done (.level .VERIFIED demoted (some e))) →
        s'.calls[i]? = some (.done (.level .VERIFIED demoted (some e))) →
        ∃ row : Verification, s'.verifications[e.id]? = some row ∧ row.isLive = true) ∧
      (∀ (id : ℕ) (row row' : Verification), s.verifications[id]? = some row → s'.verifications[id]? = some row' →
        row.revokedAt ≠ none → row.confirmedAt = none → row'.confirmedAt = none) ∧
      ∀ i level e exhausted, a = .turn i (.probed .rateLimited exhausted) → s.calls[i]? = some (.probingConfirmed level e) →
        s' = { s with calls := s.calls.set i (.done (.level (attestedFloor attested) false none)) } := by
  have hk : Kept attested s := h.inv h₀.kept fun _ _ _ hu hs => hu.step hs.1 hs.2
  refine ⟨fun i demoted evidence hi => ?_, fun hq hlevel => ?_, fun a s' hs hst => ⟨fun i demoted e => ?_, ?_, ?_⟩⟩
  · obtain ⟨e, he, hhas, hproved, -⟩ := hk.calls _ (List.mem_of_getElem? hi) rfl
    exact ⟨e, he, hhas, hproved⟩
  · rcases hk.level hlevel with hv | ⟨i, level, demoted, hi, -⟩
    · exact hv
    · obtain ⟨result, hresult⟩ := hq _ (List.mem_of_getElem? hi)
      cases hresult
  · exact verified_when_returned hk hs hst
  · exact fun id row row' hrow hrow' hrev hnot => stays_unconfirmed hs hst hrow hrow' hrev hnot
  · rintro i level e exhausted rfl hi
    exact rateLimited_writes_nothing hs hst hi

/-- A target that nothing is known of. -/
def unknown : System := ⟨[], .NONE, []⟩

theorem unknown_start : unknown.Start := ⟨nofun, rfl⟩

/-- A check whose row is superseded while it probes. -/
def supersededCheck : List Action :=
  [.call (.startVerification .FILE), .turn 0 (.go 0), .turn 0 (.go 1), .call .checkVerification, .turn 1 (.found (some 0) 2),
    .call (.startVerification .DNS), .turn 2 (.go 3), .turn 2 (.go 4), .turn 1 (.probed .published false), .turn 1 (.go 5),
    .turn 1 (.go 6)]

/-- The superseded verification is confirmed, and the level rests on nothing. -/
theorem superseded_confirmed : ∃ s row, Reaches (step false) unknown s ∧ s.Quiescent ∧ s.controlLevel = .VERIFIED ∧ ¬ s.Verified ∧
    s.verifications[0]? = some row ∧ row.revokedAt = some 3 ∧ row.confirmedAt = some 2 := by
  obtain ⟨s, hs, hlevel, hcalls, hrows⟩ := Reaches.exists_of_play (next false) (fun _ _ => true) unknown supersededCheck
    (fun s => s.controlLevel = .VERIFIED ∧
      s.calls = [.done (.issued 0), .done (.level .VERIFIED false (some ⟨0, ⟨.FILE, 1, none, none, none⟩, 2, some .published⟩)),
        .done (.issued 1)] ∧
      s.verifications = [⟨.FILE, 1, some 2, some 2, some 3⟩, ⟨.DNS, 4, none, none, none⟩]) (by decide)
  refine ⟨s, _, hs.of_guarded, fun pc hpc => ?_, hlevel, ?_, by rw [hrows]; rfl, rfl, rfl⟩
  · rw [hcalls] at hpc
    simp only [List.mem_cons, List.not_mem_nil, or_false] at hpc
    rcases hpc with rfl | rfl | rfl <;> exact ⟨_, rfl⟩
  · rintro ⟨id, row, hrow, hlive⟩
    rw [hrows] at hrow
    have hmem := List.mem_of_getElem? hrow
    simp only [List.mem_cons, List.not_mem_nil, or_false] at hmem
    rcases hmem with rfl | rfl <;> cases hlive

def isDone : Pc → Bool
  | .done _ => true
  | _ => false

/-- The action takes no verification back. -/
def undisturbed (s : System) : Action → Bool
  | .call _ => true
  | .turn i _ => match s.calls[i]? with
    | some (.expiring _) | some (.revoking _ _) | some (.settling _ _) | some (.probingConfirmed _ _) => false
    | _ => s.verifications.all (·.revokedAt.isNone)

/-- One verification, issued, published and confirmed. -/
theorem control_proved_one : ∃ s : System, s.Quiescent ∧ s.controlLevel = .VERIFIED ∧ s.Verified := by
  obtain ⟨s, hs, hlevel, hcalls⟩ := Reaches.exists_of_play (next false) undisturbed unknown
    [.call (.startVerification .FILE), .turn 0 (.go 0), .turn 0 (.go 1), .call .checkVerification, .turn 1 (.found (some 0) 2),
      .turn 1 (.probed .published false), .turn 1 (.go 5), .turn 1 (.go 6)]
    (fun s => s.controlLevel = .VERIFIED ∧ s.calls.all isDone = true) (by decide)
  have hquiet : s.Quiescent := fun pc hpc => by
    have := List.all_eq_true.mp hcalls pc hpc
    unfold isDone at this
    split at this
    · exact ⟨_, rfl⟩
    · cases this
  refine ⟨s, hquiet, hlevel, (control_proved unknown_start (hs.mono fun u a _ hu => ⟨hu.1, ?_⟩)).2.1 hquiet hlevel⟩
  have hcheck := hu.2
  cases a with
  | call pc => trivial
  | turn i input =>
    intro pc hpc
    simp only [undisturbed, hpc] at hcheck
    have hunrevoked : (∀ e, pc ≠ .expiring e) → (∀ level e, pc ≠ .revoking level e) → (∀ level demoted, pc ≠ .settling level demoted) →
        (∀ level e, pc ≠ .probingConfirmed level e) → ∀ id, u.Unrevoked id := by
      intro h₁ h₂ h₃ h₄ id row hrow
      have hall : u.verifications.all (·.revokedAt.isNone) = true := by
        split at hcheck
        · cases hcheck
        · cases hcheck
        · cases hcheck
        · cases hcheck
        · exact hcheck
      simpa using List.all_eq_true.mp hall row (List.mem_of_getElem? hrow)
    cases pc with
    | expiring e => cases hcheck
    | revoking level e => cases hcheck
    | settling level demoted => cases hcheck
    | probingConfirmed level e => cases hcheck
    | confirming e => cases input <;> first | trivial | exact hunrevoked (by simp) (by simp) (by simp) (by simp) e.id
    | promoting e => cases input <;> first | trivial | exact hunrevoked (by simp) (by simp) (by simp) (by simp) e.id
    | raising e => cases input <;> first | trivial | exact hunrevoked (by simp) (by simp) (by simp) (by simp) e.id
    | stillPublished level e =>
      cases input <;> first | trivial | exact fun _ => hunrevoked (by simp) (by simp) (by simp) (by simp) e.id
    | _ => cases input <;> trivial

end WebAudit.ControlGate
