import WebAudit.Intake.Calls
import WebAudit.Lib.Rows

/-!
# What a plan's limits bind

The running scans are counted well before the row is inserted, so two calls may both find room for one. No target
has two live scans, whatever happens; and no more scans are live than the plan allows in every run in which a row
is inserted only where none has been since its call counted (`within_limit`).

The gates read the subscribed plan. They agree with the effective one exactly where nothing that the subscribed
plan gives would be missed (`limits_bind_iff`): a subscription that lapsed keeps its plan's row.
-/

namespace WebAudit.Intake

open WebAudit.Scans WebAudit.Lib

/-! ### Rows -/

/-- What may become of a row: it keeps its target and its kind, and does not come back to life. -/
structure ScanRow.Ages (a b : ScanRow) : Prop where
  targetId : b.targetId = a.targetId
  kind : b.kind = a.kind
  live : b.isLive = true → a.isLive = true

theorem ScanRow.Ages.refl (a : ScanRow) : a.Ages a := ⟨rfl, rfl, id⟩

section Rows

variable {scans scans' : List ScanRow}

/-- Row by row. -/
def Aged (scans scans' : List ScanRow) : Prop := List.Forall₂ ScanRow.Ages scans scans'

theorem Aged.refl (scans : List ScanRow) : Aged scans scans := List.forall₂_same.mpr fun a _ => .refl a

theorem Aged.modify {f : ScanRow → ScanRow} {i : ℕ} (h : ∀ row, scans[i]? = some row → row.Ages (f row)) :
    Aged scans (scans.modify i f) := by
  refine List.forall₂_iff_get.mpr ⟨(List.length_modify ..).symm, fun j hj hj' => ?_⟩
  rw [List.get_eq_getElem, List.get_eq_getElem, List.getElem_modify]
  split
  · rename_i hij
    subst hij
    exact h _ (List.getElem?_eq_getElem hj)
  · exact .refl _

theorem Aged.getElem? (h : Aged scans scans') {i : ℕ} {b : ScanRow} (hb : scans'[i]? = some b) :
    ∃ a, scans[i]? = some a ∧ a.Ages b := by
  obtain ⟨hi, rfl⟩ := List.getElem?_eq_some_iff.mp hb
  have hi' : i < scans.length := h.length_eq ▸ hi
  exact ⟨scans[i], List.getElem?_eq_getElem hi', (List.forall₂_iff_get.mp h).2 i hi' hi⟩

theorem Aged.countP_le (h : Aged scans scans') : scans'.countP ScanRow.isLive ≤ scans.countP ScanRow.isLive := by
  induction h with
  | nil => exact Nat.le_refl 0
  | @cons a b rest rest' hab _ ih =>
    rw [List.countP_cons, List.countP_cons]
    by_cases hb : b.isLive = true
    · rw [if_pos hb, if_pos (hab.live hb)]
      omega
    · rw [if_neg hb]
      omega

end Rows

/-! ### The gates -/

/-- What the plan permits. -/
def EffectivePlan.Permits (plan : EffectivePlan) (targets : ℕ → Option InputType) (kind : ScanKind) (targetId : ℕ) : Prop :=
  match kind with
  | .INITIAL => ∃ inputType, targets targetId = some inputType ∧ inputType ∈ plan.allowedInputTypes
  | .READINESS => plan.allowReadinessPass = true

/-- What a call wants to insert. -/
def CallPc.draft : CallPc → Option Draft
  | .headroom draft | .check draft _ | .insert draft _ | .debit _ draft | .enqueue _ draft => some draft
  | _ => none

/-- The draft passed the gate of the subscribed plan. -/
def Draft.Gated (account : Account) (targets : ℕ → Option InputType) (draft : Draft) : Prop :=
  ∃ plan, account.subscribedPlan = some plan ∧ plan.Permits targets draft.kind draft.targetId ∧ draft.planQueuePriority = plan.queuePriority

theorem readScan_cases (account : Account) (targets : ℕ → Option InputType) (s : Desk) (targetId : ℕ) (modules : List ModuleType) :
    (∃ error, readScan account targets s targetId modules = .threw error) ∨
      ∃ draft, readScan account targets s targetId modules = .headroom draft ∧ draft.Gated account targets := by
  unfold readScan
  split
  · exact .inl ⟨_, rfl⟩
  rename_i inputType htarget
  split
  · exact .inl ⟨_, rfl⟩
  split
  · exact .inl ⟨_, rfl⟩
  rename_i plan hplan
  split
  · rename_i hallowed
    exact .inr ⟨_, rfl, plan, hplan, ⟨inputType, htarget, by simpa using hallowed⟩, rfl⟩
  · exact .inl ⟨_, rfl⟩

theorem readBaseline_cases (account : Account) (targets : ℕ → Option InputType) (s : Desk) (baselineScanId : ℕ) :
    (∃ error, readBaseline account s baselineScanId = .threw error) ∨
      ∃ draft, readBaseline account s baselineScanId = .headroom draft ∧ draft.Gated account targets := by
  unfold readBaseline
  split
  · exact .inl ⟨_, rfl⟩
  split
  · exact .inl ⟨_, rfl⟩
  split
  · exact .inl ⟨_, rfl⟩
  split
  · exact .inl ⟨_, rfl⟩
  split
  · exact .inl ⟨_, rfl⟩
  rename_i plan hplan
  split
  · rename_i hallowed
    exact .inr ⟨_, rfl, plan, hplan, hallowed, rfl⟩
  · exact .inl ⟨_, rfl⟩

/-! ### Steps -/

section Steps

variable {account : Account} {now : ℤ} {targets : ℕ → Option InputType} {s s' : Desk} {a : DeskAction}

/-- The rows after a step: a row was inserted, or none. -/
inductive Desk.Writes (account : Account) (now : ℤ) (targets : ℕ → Option InputType) (s : Desk) : DeskAction → Desk → Prop where
  | called (request : Request) : Writes account now targets s (.call request) { s with calls := s.calls ++ [⟨request, .read⟩] }
  | moved {scanId state row} (hrow : s.scans[scanId]? = some row) (h : canTransition row.state state = true) :
    Writes account now targets s (.move scanId state) (s.setState scanId state)
  | stepped {i ok call pc s'} (hcall : s.calls[i]? = some call)
    (h : CallPc.Moves account now targets call.request s call.pc pc s') :
    Writes account now targets s (.step i ok) { s' with calls := s.calls.set i { call with pc } }

theorem CallPc.Moves.calls {request : Request} {pc pc' : CallPc} (h : CallPc.Moves account now targets request s pc pc' s') :
    s'.calls = s.calls := by
  cases h <;> rfl

theorem Desk.next_writes (h : s.next account now targets a = some s') : s.Writes account now targets a s' := by
  cases a with
  | call request =>
    cases h
    exact .called request
  | step i ok =>
    obtain ⟨call, hcall, rfl⟩ := Option.map_eq_some_iff.mp h
    have hmoves := @CallPc.step_moves account now targets call.request ok call.pc s
    dsimp only
    rw [hmoves.calls]
    exact .stepped hcall hmoves
  | move scanId state =>
    unfold Desk.next at h
    dsimp only at h
    split at h
    · cases h
    · rename_i row hrow
      split at h
      · rename_i hcan
        cases h
        exact .moved hrow hcan
      · cases h

theorem ages_of_canTransition {row : ScanRow} {state : ScanState} (h : canTransition row.state state = true) :
    row.Ages { row with state } := by
  refine ⟨rfl, rfl, fun hlive => ?_⟩
  have hopen : row.state.isTerminal = false := by
    by_contra hend
    rw [canTransition_terminal (by simpa using hend)] at h
    cases h
  unfold ScanRow.isLive at hlive ⊢
  dsimp only at hlive
  rw [hopen]
  simpa using (Bool.and_eq_true_iff.mp hlive).1

/-- The rows that a call's step leaves, or the one it adds. -/
theorem CallPc.Moves.rows {request : Request} {pc pc' : CallPc} (h : CallPc.Moves account now targets request s pc pc' s') :
    Aged s.scans s'.scans ∨ ∃ draft seen, pc = .insert draft seen ∧ s.runningOf draft.targetId = none ∧
      s'.scans = s.scans ++ [⟨draft.targetId, draft.kind, draft.modules, .QUEUED, false⟩] := by
  cases h with
  | inserted hfree => exact .inr ⟨_, _, rfl, hfree, rfl⟩
  | removed => exact .inl (Aged.modify fun row _ => ⟨rfl, rfl, nofun⟩)
  | failed => exact .inl (Aged.modify fun row _ => ⟨rfl, rfl, fun h => by simp [ScanRow.isLive, ScanState.isTerminal] at h⟩)
  | _ => exact .inl (.refl _)

/-- The rows after a step. -/
theorem Desk.Writes.rows (h : s.Writes account now targets a s') :
    Aged s.scans s'.scans ∨ ∃ i call draft seen, (∃ ok, a = .step i ok) ∧ s.calls[i]? = some call ∧ call.pc = .insert draft seen ∧
      s.runningOf draft.targetId = none ∧ s'.scans = s.scans ++ [⟨draft.targetId, draft.kind, draft.modules, .QUEUED, false⟩] := by
  cases h with
  | called request => exact .inl (.refl _)
  | moved hrow hcan =>
    refine .inl (Aged.modify fun row' hrow' => ?_)
    cases hrow.symm.trans hrow'
    exact ages_of_canTransition hcan
  | stepped hcall hmoves =>
    rcases hmoves.rows with haged | ⟨draft, seen, hpc, hfree, hscans⟩
    · exact .inl haged
    · exact .inr ⟨_, _, draft, seen, ⟨_, rfl⟩, hcall, hpc, hfree, hscans⟩

/-! ### One for each target -/

theorem Desk.runningOf_eq_none {targetId : ℕ} (h : s.runningOf targetId = none) {i : ℕ} {row : ScanRow} (hrow : s.scans[i]? = some row)
    (hlive : row.isLive = true) : row.targetId ≠ targetId := by
  have hnone := List.findIdx?_eq_none_iff.mp h row (List.mem_of_getElem? hrow)
  rintro rfl
  rw [hlive] at hnone
  simp at hnone

theorem Desk.OnePerTarget.step (h : s.OnePerTarget) (hs : s.Writes account now targets a s') : s'.OnePerTarget := by
  rcases hs.rows with haged | ⟨_, _, draft, _, -, -, -, hfree, hscans⟩
  · intro i j x y hx hy hxlive hylive htarget
    obtain ⟨x', hx', hxages⟩ := haged.getElem? hx
    obtain ⟨y', hy', hyages⟩ := haged.getElem? hy
    refine h i j x' y' hx' hy' (hxages.live hxlive) (hyages.live hylive) ?_
    rw [← hxages.targetId, ← hyages.targetId, htarget]
  · intro i j x y hx hy hxlive hylive htarget
    rw [hscans] at hx hy
    rcases getElem?_concat_index hx with hx | ⟨hi, rfl⟩ <;> rcases getElem?_concat_index hy with hy | ⟨hj, rfl⟩
    · exact h i j x y hx hy hxlive hylive htarget
    · exact absurd htarget (Desk.runningOf_eq_none hfree hx hxlive)
    · exact absurd htarget.symm (Desk.runningOf_eq_none hfree hy hylive)
    · rw [hi, hj]

theorem Desk.one_per_target {s₀ : Desk} (h₀ : s₀.OnePerTarget) (h : Reaches (Desk.Steps account now targets) s₀ s) : s.OnePerTarget :=
  h.inv h₀ fun _ _ _ hone hs => hone.step (Desk.next_writes hs)

/-! ### The limit -/

/-- A row is inserted only where none was since its call counted. -/
def Desk.alone (s : Desk) : DeskAction → Bool
  | .step i _ =>
    match (s.calls[i]?).map Call.pc with
    | some (.insert _ seen) => decide (seen = s.scans.length)
    | _ => true
  | _ => true

/-- How many rows there were when the call counted. -/
def CallPc.seen : CallPc → Option ℕ
  | .check _ seen | .insert _ seen => some seen
  | _ => none

/-- If the call has seen every row, there is room. -/
def CallPc.Room (limit : ℤ) (s : Desk) (pc : CallPc) : Prop :=
  ∀ seen, pc.seen = some seen → seen ≤ s.scans.length ∧ (seen = s.scans.length → (s.running : ℤ) < limit)

/-- No more scans are live than `limit`, and each call has room. -/
structure Desk.Within (limit : ℤ) (s : Desk) : Prop where
  within : (s.running : ℤ) ≤ limit
  room : ∀ call ∈ s.calls, call.pc.Room limit s

theorem CallPc.Room.aged {limit : ℤ} {pc : CallPc} (h : pc.Room limit s) (haged : Aged s.scans s'.scans) : pc.Room limit s' := by
  intro seen hseen
  obtain ⟨hle, hroom⟩ := h seen hseen
  rw [← haged.length_eq]
  have hfewer : s'.running ≤ s.running := haged.countP_le
  exact ⟨hle, fun heq => by have := hroom heq; omega⟩

/-- A row more, and nobody has seen every row. -/
theorem CallPc.Room.inserted {limit : ℤ} {pc : CallPc} {row : ScanRow} (h : pc.Room limit s) (hscans : s'.scans = s.scans ++ [row]) :
    pc.Room limit s' := by
  intro seen hseen
  have hle := (h seen hseen).1
  rw [hscans, List.length_append, List.length_singleton]
  exact ⟨by omega, fun heq => by omega⟩

/-- A call that counts finds room, or is refused. -/
theorem CallPc.Moves.room {limit : ℤ} {plan : EffectivePlan} {request : Request} {pc pc' : CallPc}
    (hplan : account.resolveEffectivePlan now = some plan) (hlimit : plan.concurrentScanLimit = limit) (hroom : pc.Room limit s)
    (h : CallPc.Moves account now targets request s pc pc' s') : pc'.Room limit s := by
  cases h with
  | counted hheadroom =>
    intro seen hseen
    cases hseen
    obtain ⟨hplan', hless⟩ := assertConcurrencyHeadroom_ok.mp hheadroom
    cases hplan.symm.trans hplan'
    exact ⟨Nat.le_refl _, fun _ => hlimit ▸ hless⟩
  | checked => exact fun seen hseen => hroom seen hseen
  | stays => exact hroom
  | @readScan targetId modules =>
    rcases readScan_cases account targets s targetId modules with ⟨error, h⟩ | ⟨draft, h, -⟩ <;> rw [h] <;> exact nofun
  | @readBaseline baselineScanId =>
    rcases readBaseline_cases account targets s baselineScanId with ⟨error, h⟩ | ⟨draft, h, -⟩ <;> rw [h] <;> exact nofun
  | _ => exact nofun

theorem Desk.Within.step {limit : ℤ} {plan : EffectivePlan} (hplan : account.resolveEffectivePlan now = some plan)
    (hlimit : plan.concurrentScanLimit = limit) (h : s.Within limit) (hs : s.Writes account now targets a s') (halone : s.alone a = true) :
    s'.Within limit := by
  cases hs with
  | called request =>
    refine ⟨h.within, fun call hmem => ?_⟩
    rcases List.mem_append.mp hmem with hmem | hmem
    · exact h.room call hmem
    · obtain rfl := List.mem_singleton.mp hmem
      exact nofun
  | @moved scanId state row hrow hcan =>
    have haged : Aged s.scans (s.setState scanId state).scans := by
      refine Aged.modify fun row' hrow' => ?_
      cases hrow.symm.trans hrow'
      exact ages_of_canTransition hcan
    have hfewer : (s.setState scanId state).running ≤ s.running := haged.countP_le
    exact ⟨by have := h.within; omega, fun call hmem => (h.room call hmem).aged haged⟩
  | @stepped i ok call pc s' hcall hmoves =>
    have hroom := hmoves.room hplan hlimit (h.room call (List.mem_of_getElem? hcall))
    rcases hmoves.rows with haged | ⟨draft, seen, hpc, hfree, hscans⟩
    · have hfewer : s'.running ≤ s.running := haged.countP_le
      refine ⟨(Int.ofNat_le.mpr hfewer).trans h.within, fun call' hmem => ?_⟩
      rcases List.mem_or_eq_of_mem_set hmem with hmem | rfl
      · exact (h.room call' hmem).aged haged
      · exact hroom.aged haged
    · -- nobody came in between: there is still room
      have hseen : seen = s.scans.length := by
        unfold Desk.alone at halone
        dsimp only at halone
        rw [hcall, Option.map_some, hpc] at halone
        exact of_decide_eq_true halone
      have hless := (h.room call (List.mem_of_getElem? hcall) seen (by rw [hpc]; rfl)).2 hseen
      refine ⟨?_, fun call' hmem => ?_⟩
      · change ((s'.scans.countP ScanRow.isLive : ℕ) : ℤ) ≤ limit
        rw [hscans, List.countP_append, List.countP_singleton]
        unfold Desk.running at hless
        split <;> omega
      · rcases List.mem_or_eq_of_mem_set hmem with hmem | rfl
        · exact (h.room call' hmem).inserted hscans
        · exact hroom.inserted hscans

/-- **One live scan for each target, and no more live scans than the plan allows** where nobody's row comes between
a count and an insert. -/
theorem within_limit {plan : EffectivePlan} (hplan : account.resolveEffectivePlan now = some plan) {s₀ : Desk} (hidle : s₀.calls = [])
    (hone : s₀.OnePerTarget) (hroom : (s₀.running : ℤ) ≤ plan.concurrentScanLimit) (s : Desk) :
    (Reaches (Desk.Steps account now targets) s₀ s → s.OnePerTarget) ∧
      (Reaches (Guarded (Desk.Steps account now targets) fun s a _ => s.alone a = true) s₀ s →
        (s.running : ℤ) ≤ plan.concurrentScanLimit) := by
  refine ⟨Desk.one_per_target hone, fun h => ?_⟩
  have hstart : s₀.Within plan.concurrentScanLimit := ⟨hroom, fun call hmem => by rw [hidle] at hmem; cases hmem⟩
  have hwithin : s.Within plan.concurrentScanLimit :=
    h.inv hstart fun _ _ _ hu hs => hu.step hplan rfl (Desk.next_writes hs.1) hs.2
  exact hwithin.within

end Steps

/-! ### What the gates let through -/

/-- What has to be entitled. -/
def featureOf (targets : ℕ → Option InputType) (kind : ScanKind) (targetId : ℕ) : Option EntitlementFeature :=
  match kind, targets targetId with
  | .INITIAL, some .ARCHIVE => some .ARCHIVE_INPUT
  | .INITIAL, some .REPOSITORY => some .REPOSITORY_INPUT
  | .READINESS, _ => some .READINESS_PASS
  | _, _ => none

/-- Whatever is started is what the effective plan permits, with its priority. -/
structure LimitsBind (account : Account) (now : ℤ) : Prop where
  rows : ∀ (targets : ℕ → Option InputType) (s₀ s : Desk), s₀.Idle → Reaches (Desk.Steps account now targets) s₀ s →
    ∀ (i : ℕ) (row : ScanRow), s₀.scans.length ≤ i → s.scans[i]? = some row →
      ∃ plan, account.resolveEffectivePlan now = some plan ∧ plan.Permits targets row.kind row.targetId
  jobs : ∀ (targets : ℕ → Option InputType) (s₀ s : Desk), s₀.Idle → Reaches (Desk.Steps account now targets) s₀ s →
    ∀ job ∈ s.jobs, ∃ plan, account.resolveEffectivePlan now = some plan ∧ job.planQueuePriority = plan.queuePriority
  entitled : ∀ (targets : ℕ → Option InputType) (s₀ s : Desk), s₀.Idle → Reaches (Desk.Steps account now targets) s₀ s →
    ∀ (i : ℕ) (row : ScanRow) (feature : EntitlementFeature), s₀.scans.length ≤ i → s.scans[i]? = some row →
      featureOf targets row.kind row.targetId = some feature → ∃ plan, assertEntitled account now feature = .ok plan

/-- The subscribed plan gives nothing that the effective one does not, where that has room for a scan. -/
structure Agrees (plan effective : EffectivePlan) : Prop where
  inputTypes : ∀ inputType ∈ plan.allowedInputTypes, inputType ∈ effective.allowedInputTypes
  readiness : plan.allowReadinessPass = true → effective.allowReadinessPass = true
  priority : plan.allowedInputTypes ≠ [] ∨ plan.allowReadinessPass = true → plan.queuePriority = effective.queuePriority

section Gates

variable {account : Account} {now : ℤ} {targets : ℕ → Option InputType} {s s' : Desk} {a : DeskAction} {n : ℕ}

/-- The call has counted, and found room. -/
def CallPc.counted : CallPc → Bool
  | .check _ _ | .insert _ _ | .debit _ _ | .enqueue _ _ => true
  | _ => false

/-- There is an effective plan, and it has room for a scan. -/
def Account.HasRoom (account : Account) (now : ℤ) : Prop := ∃ plan, account.resolveEffectivePlan now = some plan ∧ 0 < plan.concurrentScanLimit

structure CallPc.Vetted (account : Account) (now : ℤ) (targets : ℕ → Option InputType) (pc : CallPc) : Prop where
  gated : ∀ draft, pc.draft = some draft → draft.Gated account targets
  room : pc.counted = true → account.HasRoom now

theorem CallPc.Vetted.threw (error : CreateError) : CallPc.Vetted account now targets (.threw error) :=
  ⟨fun _ h => (nomatch h), fun h => (nomatch h)⟩

theorem CallPc.Moves.vetted {request : Request} {pc pc' : CallPc} (h : CallPc.Moves account now targets request s pc pc' s')
    (hpc : pc.Vetted account now targets) : pc'.Vetted account now targets := by
  cases h with
  | @readScan targetId modules =>
    rcases readScan_cases account targets s targetId modules with ⟨error, h⟩ | ⟨draft, h, hgated⟩ <;> rw [h]
    · exact .threw error
    · exact ⟨fun draft' h => by cases h; exact hgated, fun h => (nomatch h)⟩
  | @readBaseline baselineScanId =>
    rcases readBaseline_cases account targets s baselineScanId with ⟨error, h⟩ | ⟨draft, h, hgated⟩ <;> rw [h]
    · exact .threw error
    · exact ⟨fun draft' h => by cases h; exact hgated, fun h => (nomatch h)⟩
  | counted hheadroom =>
    obtain ⟨hplan, hless⟩ := assertConcurrencyHeadroom_ok.mp hheadroom
    exact ⟨hpc.gated, fun _ => ⟨_, hplan, by omega⟩⟩
  | checked => exact ⟨hpc.gated, hpc.room⟩
  | inserted => exact ⟨hpc.gated, hpc.room⟩
  | debited => exact ⟨hpc.gated, hpc.room⟩
  | stays => exact hpc
  | _ => exact ⟨fun _ h => (nomatch h), fun h => (nomatch h)⟩

/-- Every call was vetted, and so was what the calls have written: the rows from `n` on, and the jobs. -/
structure Desk.Vetted (account : Account) (now : ℤ) (targets : ℕ → Option InputType) (n : ℕ) (s : Desk) : Prop where
  length : n ≤ s.scans.length
  calls : ∀ call ∈ s.calls, call.pc.Vetted account now targets
  rows : ∀ (i : ℕ) (row : ScanRow), n ≤ i → s.scans[i]? = some row →
    account.HasRoom now ∧ ∃ plan, account.subscribedPlan = some plan ∧ plan.Permits targets row.kind row.targetId
  jobs : ∀ job ∈ s.jobs, account.HasRoom now ∧ ∃ plan kind targetId, account.subscribedPlan = some plan ∧
    plan.Permits targets kind targetId ∧ job.planQueuePriority = plan.queuePriority

/-- The rows that were there are vetted as before. -/
theorem Aged.vetted (h : Aged s.scans s'.scans) (hs : s.Vetted account now targets n) (i : ℕ) (row : ScanRow) (hi : n ≤ i)
    (hrow : s'.scans[i]? = some row) :
    account.HasRoom now ∧ ∃ plan, account.subscribedPlan = some plan ∧ plan.Permits targets row.kind row.targetId := by
  obtain ⟨row', hrow', hages⟩ := h.getElem? hrow
  rw [hages.kind, hages.targetId]
  exact hs.rows i row' hi hrow'

theorem Desk.Vetted.step (h : s.Vetted account now targets n) (hs : s.Writes account now targets a s') : s'.Vetted account now targets n := by
  cases hs with
  | called request =>
    refine ⟨h.length, fun call hmem => ?_, h.rows, h.jobs⟩
    rcases List.mem_append.mp hmem with hmem | hmem
    · exact h.calls call hmem
    · obtain rfl := List.mem_singleton.mp hmem
      exact ⟨fun _ h => (nomatch h), fun h => (nomatch h)⟩
  | @moved scanId state row hrow hcan =>
    have haged : Aged s.scans (s.setState scanId state).scans := by
      refine Aged.modify fun row' hrow' => ?_
      cases hrow.symm.trans hrow'
      exact ages_of_canTransition hcan
    exact ⟨haged.length_eq ▸ h.length, h.calls, haged.vetted h, h.jobs⟩
  | @stepped i ok call pc s' hcall hmoves =>
    have hpc := h.calls call (List.mem_of_getElem? hcall)
    have hcalls : ∀ call' ∈ s.calls.set i { call with pc }, call'.pc.Vetted account now targets := by
      intro call' hmem
      rcases List.mem_or_eq_of_mem_set hmem with hmem | rfl
      · exact h.calls call' hmem
      · exact hmoves.vetted hpc
    have hrows : n ≤ s'.scans.length ∧ ∀ (i : ℕ) (row : ScanRow), n ≤ i → s'.scans[i]? = some row →
        account.HasRoom now ∧ ∃ plan, account.subscribedPlan = some plan ∧ plan.Permits targets row.kind row.targetId := by
      rcases hmoves.rows with haged | ⟨draft, seen, hinsert, hfree, hscans⟩
      · exact ⟨haged.length_eq ▸ h.length, haged.vetted h⟩
      · rw [hinsert] at hpc
        obtain ⟨plan, hplan, hpermits, -⟩ := hpc.gated draft rfl
        rw [hscans]
        refine ⟨by rw [List.length_append]; exact h.length.trans (Nat.le_add_right _ _), fun i row hi hrow => ?_⟩
        rcases getElem?_concat_index hrow with hrow | ⟨-, rfl⟩
        · exact h.rows i row hi hrow
        · exact ⟨hpc.room rfl, plan, hplan, hpermits⟩
    have hjobs : ∀ job ∈ s'.jobs, account.HasRoom now ∧ ∃ plan kind targetId, account.subscribedPlan = some plan ∧
        plan.Permits targets kind targetId ∧ job.planQueuePriority = plan.queuePriority := by
      obtain ⟨request, pc₀⟩ := call
      cases hmoves with
      | enqueued =>
        obtain ⟨plan, hplan, hpermits, hpriority⟩ := hpc.gated _ rfl
        exact forall_mem_concat h.jobs ⟨hpc.room rfl, plan, _, _, hplan, hpermits, hpriority⟩
      | _ => exact h.jobs
    exact ⟨hrows.1, hcalls, hrows.2, hjobs⟩

theorem Desk.vetted {s₀ : Desk} (hidle : s₀.Idle) (h : Reaches (Desk.Steps account now targets) s₀ s) :
    s.Vetted account now targets s₀.scans.length := by
  refine h.inv ⟨Nat.le_refl _, fun call hmem => ?_, fun i row hi hrow => ?_, fun job hmem => ?_⟩ fun _ _ _ hu hs => hu.step (Desk.next_writes hs)
  · rw [hidle.calls] at hmem
    cases hmem
  · exact absurd (List.getElem?_eq_some_iff.mp hrow).1 (by omega)
  · rw [hidle.jobs] at hmem
    cases hmem

/-- A plan that permits a scan gives something. -/
theorem EffectivePlan.Permits.gives {plan : EffectivePlan} {kind : ScanKind} {targetId : ℕ} (h : plan.Permits targets kind targetId) :
    plan.allowedInputTypes ≠ [] ∨ plan.allowReadinessPass = true := by
  cases kind with
  | INITIAL =>
    obtain ⟨inputType, -, hmem⟩ := h
    exact .inl (List.ne_nil_of_mem hmem)
  | READINESS => exact .inr h

theorem EffectivePlan.Permits.allows {plan : EffectivePlan} {kind : ScanKind} {targetId : ℕ} {feature : EntitlementFeature}
    (h : plan.Permits targets kind targetId) (hfeature : featureOf targets kind targetId = some feature) : planAllows plan feature = true := by
  cases kind with
  | INITIAL =>
    obtain ⟨inputType, htarget, hmem⟩ := h
    unfold featureOf at hfeature
    rw [htarget] at hfeature
    cases inputType with
    | URL => cases hfeature
    | ARCHIVE =>
      cases hfeature
      simpa [planAllows] using hmem
    | REPOSITORY =>
      cases hfeature
      simpa [planAllows] using hmem
  | READINESS =>
    cases hfeature
    exact h

theorem Agrees.permits {plan effective : EffectivePlan} {kind : ScanKind} {targetId : ℕ} (h : Agrees plan effective)
    (hpermits : plan.Permits targets kind targetId) : effective.Permits targets kind targetId := by
  cases kind with
  | INITIAL =>
    obtain ⟨inputType, htarget, hmem⟩ := hpermits
    exact ⟨inputType, htarget, h.inputTypes inputType hmem⟩
  | READINESS => exact h.readiness hpermits

/-- A call of `createScan` that nothing else refuses. -/
theorem scan_starts {plan effective : EffectivePlan} {inputType : InputType} (hplan : account.subscribedPlan = some plan)
    (heffective : account.resolveEffectivePlan now = some effective) (hroom : 0 < effective.concurrentScanLimit)
    (hmem : inputType ∈ plan.allowedInputTypes) :
    Reaches (Desk.Steps account now fun _ => some inputType) ⟨[], [], []⟩
      ⟨[⟨0, .INITIAL, [], .QUEUED, false⟩], [⟨0, [], plan.queuePriority⟩], [⟨.scan 0 [], .returned 0⟩]⟩ := by
  have hheadroom : assertConcurrencyHeadroom account now 0 = .ok effective := assertConcurrencyHeadroom_ok.mpr ⟨heffective, by simpa using hroom⟩
  refine (Reaches.of_play (Desk.next account now fun _ => some inputType) (fun _ _ => true)
    (.call (.scan 0 []) :: List.replicate 6 (.step 0 true)) ?_).of_guarded
  simp [Desk.next, CallPc.step, readScan, Desk.runningOf, Desk.running, hplan, hmem, hheadroom, modulesForPhase, List.replicate]

/-- A call of `createReadinessScan` that nothing else refuses. -/
theorem readiness_starts {plan effective : EffectivePlan} (hplan : account.subscribedPlan = some plan)
    (heffective : account.resolveEffectivePlan now = some effective) (hroom : 0 < effective.concurrentScanLimit)
    (hallowed : plan.allowReadinessPass = true) :
    Reaches (Desk.Steps account now targets) ⟨[⟨0, .INITIAL, [], .COMPLETED, false⟩], [], []⟩
      ⟨[⟨0, .INITIAL, [], .COMPLETED, false⟩, ⟨0, .READINESS, allAreas, .QUEUED, false⟩],
        [⟨1, modulesForPhase .RUNNING_PHASE_1 allAreas, plan.queuePriority⟩], [⟨.readiness 0, .returned 1⟩]⟩ := by
  have hheadroom : assertConcurrencyHeadroom account now 0 = .ok effective := assertConcurrencyHeadroom_ok.mpr ⟨heffective, by simpa using hroom⟩
  refine (Reaches.of_play (Desk.next account now targets) (fun _ _ => true) (.call (.readiness 0) :: List.replicate 6 (.step 0 true)) ?_).of_guarded
  simp [Desk.next, CallPc.step, readBaseline, Desk.runningOf, Desk.running, ScanRow.isLive, ScanState.isTerminal, hplan, hallowed, hheadroom,
    List.replicate]

/-- **The limits bind exactly where the subscribed plan agrees with the effective one.** -/
theorem limits_bind_iff (account : Account) (now : ℤ) :
    LimitsBind account now ↔ ∀ plan effective, account.subscribedPlan = some plan → account.resolveEffectivePlan now = some effective →
      0 < effective.concurrentScanLimit → Agrees plan effective := by
  constructor
  · intro h plan effective hplan heffective hroom
    have hempty : (⟨[], [], []⟩ : Desk).Idle := ⟨rfl, rfl⟩
    have hcompleted : (⟨[⟨0, .INITIAL, [], .COMPLETED, false⟩], [], []⟩ : Desk).Idle := ⟨rfl, rfl⟩
    refine ⟨fun inputType hmem => ?_, fun hallowed => ?_, fun hgives => ?_⟩
    · obtain ⟨plan', hplan', type', htype, hmem'⟩ := h.rows _ _ _ hempty (scan_starts hplan heffective hroom hmem) 0 _ (Nat.zero_le _) rfl
      cases heffective.symm.trans hplan'
      cases htype
      exact hmem'
    · obtain ⟨plan', hplan', hpermits⟩ :=
        h.rows (fun _ => none) _ _ hcompleted (readiness_starts hplan heffective hroom hallowed) 1 _ (Nat.le_refl _) rfl
      cases heffective.symm.trans hplan'
      exact hpermits
    · rcases hgives with hgives | hallowed
      · obtain ⟨inputType, hmem⟩ := List.exists_mem_of_ne_nil _ hgives
        obtain ⟨plan', hplan', hpriority⟩ := h.jobs _ _ _ hempty (scan_starts hplan heffective hroom hmem) _ List.mem_cons_self
        cases heffective.symm.trans hplan'
        exact hpriority
      · obtain ⟨plan', hplan', hpriority⟩ :=
          h.jobs (fun _ => none) _ _ hcompleted (readiness_starts hplan heffective hroom hallowed) _ List.mem_cons_self
        cases heffective.symm.trans hplan'
        exact hpriority
  · intro h
    have hrows (targets : ℕ → Option InputType) (s₀ s : Desk) (hidle : s₀.Idle) (hs : Reaches (Desk.Steps account now targets) s₀ s) (i : ℕ)
        (row : ScanRow) (hi : s₀.scans.length ≤ i) (hrow : s.scans[i]? = some row) :
        ∃ plan, account.resolveEffectivePlan now = some plan ∧ plan.Permits targets row.kind row.targetId := by
      obtain ⟨⟨effective, heffective, hroom⟩, plan, hplan, hpermits⟩ := (Desk.vetted hidle hs).rows i row hi hrow
      exact ⟨effective, heffective, (h plan effective hplan heffective hroom).permits hpermits⟩
    refine ⟨hrows, fun targets s₀ s hidle hs job hmem => ?_, fun targets s₀ s hidle hs i row feature hi hrow hfeature => ?_⟩
    · obtain ⟨⟨effective, heffective, hroom⟩, plan, kind, targetId, hplan, hpermits, hpriority⟩ := (Desk.vetted hidle hs).jobs job hmem
      exact ⟨effective, heffective, hpriority.trans ((h plan effective hplan heffective hroom).priority hpermits.gives)⟩
    · obtain ⟨plan, hplan, hpermits⟩ := hrows targets s₀ s hidle hs i row hi hrow
      exact ⟨plan, assertEntitled_ok.mpr ⟨hplan, hpermits.allows hfeature⟩⟩

end Gates

/-- The free plan as it was seeded. -/
def freePlan : PlanRow := ⟨⟨⟨"free", [.URL], false, false, false, false, 1, 40⟩, 50⟩, true⟩

/-- A scan of one target after that of another has ended. -/
theorem within_limit_one_after_another :
    ∃ s : Desk, s.running = 1 ∧ s.scans.length = 2 ∧ (s.running : ℤ) ≤ freePlan.concurrentScanLimit := by
  obtain ⟨s, hs, hrunning, hlength⟩ := Reaches.exists_of_play (Desk.next ⟨none, [freePlan]⟩ 0 fun _ => some .URL) Desk.alone ⟨[], [], []⟩
    (([.call (.scan 0 [.SEO])] : List DeskAction) ++ List.replicate 6 (.step 0 true : DeskAction) ++ ([.move 0 .CANCELLED, .call (.scan 1 [.SEO])] : List DeskAction) ++ List.replicate 6 (.step 1 true : DeskAction))
    (fun s => s.running = 1 ∧ s.scans.length = 2) (by decide)
  have hfree : (⟨none, [freePlan]⟩ : Account).resolveEffectivePlan 0 = some freePlan.toEffectivePlan := rfl
  exact ⟨s, hrunning, hlength, (within_limit hfree rfl (fun _ _ _ _ hx => by simp at hx) (by decide) s).2 hs⟩

/-- Two calls find room for one scan. -/
theorem counted_before_either :
    ∃ s, Reaches (Desk.Steps ⟨none, [freePlan]⟩ 0 fun _ => some .URL) ⟨[], [], []⟩ s ∧
      freePlan.concurrentScanLimit < s.running := by
  obtain ⟨s, hs, hrunning⟩ := Reaches.exists_of_play (Desk.next ⟨none, [freePlan]⟩ 0 fun _ => some .URL) (fun _ _ => true) ⟨[], [], []⟩
    [.call (.scan 0 [.SEO]), .call (.scan 1 [.SEO]), .step 0 true, .step 0 true, .step 1 true, .step 1 true,
      .step 0 true, .step 0 true, .step 1 true, .step 1 true]
    (fun s => s.running = 2) (by decide)
  exact ⟨s, hs.of_guarded, by rw [hrunning]; decide⟩

/-- The pro plan as it was seeded. -/
def proPlan : PlanRow := ⟨⟨⟨"pro", [.URL, .ARCHIVE, .REPOSITORY], true, true, true, false, 3, 20⟩, 1200⟩, true⟩

/-- A user of the pro plan whose payment is due. -/
def pastDue : Account := ⟨some ⟨proPlan, .PAST_DUE, 0⟩, [freePlan, proPlan]⟩

/-- The pro plan's inputs are still taken. -/
theorem past_due_not_bound : ¬ LimitsBind pastDue 0 := by
  intro h
  have hfree : pastDue.resolveEffectivePlan 0 = some freePlan.toEffectivePlan := rfl
  have hpro : pastDue.subscribedPlan = some proPlan.toEffectivePlan := rfl
  have hallowed : InputType.REPOSITORY ∈ proPlan.allowedInputTypes := by decide
  obtain ⟨plan, hplan, inputType, htype, hmem⟩ :=
    h.rows _ _ _ ⟨rfl, rfl⟩ (scan_starts hpro hfree (by decide) hallowed) 0 _ (Nat.zero_le _) rfl
  cases hplan
  cases htype
  revert hmem
  decide

end WebAudit.Intake
