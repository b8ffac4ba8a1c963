import WebAudit.Execution.Attempts

/-!
# What depends on a failed unit

The finalizer blocks whatever depends on a unit that has not been completed, and whatever depends on
that (`blockDependents_closed`). It can, whenever units that have left `PLANNED` had everything they
depend on completed (`blockDependents_isSome`).

So no unit waits for one that has failed (`Closed`), as long as a passive unit that other units wait
for is not refused: `fahes_complete_passive_unit` blocks nothing.
-/

namespace WebAudit.Execution

open WebAudit.Lib WebAudit.Planning
open ExecutionUnitStatus

/-! ### The queue -/

/-- How many units are not over. -/
def liveCount (units : List ExecutionUnit) : ℕ := units.countP fun u => !u.status.isTerminal

/-- A unit that has left `PLANNED` and is not over depends on completed units only. -/
def Fed (dependencies : List (ℕ × ℕ)) (units : List ExecutionUnit) : Prop :=
  ∀ e ∈ dependencies, ∀ u : ExecutionUnit, units[e.1]? = some u → u.status.isTerminal = false → u.status ≠ PLANNED →
    ∃ v : ExecutionUnit, units[e.2]? = some v ∧ v.status = COMPLETED

/-- The status of a unit has changed. -/
def Changed (units units' : List ExecutionUnit) (i : ℕ) : Prop :=
  ∃ u u' : ExecutionUnit, units[i]? = some u ∧ units'[i]? = some u' ∧ u'.status ≠ u.status

section Queue

variable {dependencies : List (ℕ × ℕ)} {units units' units'' : List ExecutionUnit} {i j : ℕ} {js queue : List ℕ} {rounds : ℕ}

theorem mem_dependentsLeft : j ∈ dependentsLeft dependencies units i ↔
    (j, i) ∈ dependencies ∧ ∃ u : ExecutionUnit, units[j]? = some u ∧ u.status.isTerminal = false := by
  simp only [dependentsLeft, List.mem_filter, List.mem_range, Bool.and_eq_true, List.contains_iff_mem, Option.any_eq_true,
    Bool.not_eq_true']
  constructor
  · rintro ⟨-, hdep, hlive⟩
    exact ⟨hdep, hlive⟩
  · rintro ⟨hdep, u, hu, hlive⟩
    exact ⟨(List.getElem?_eq_some_iff.mp hu).1, hdep, u, hu, hlive⟩

theorem dependentsLeft_nodup : (dependentsLeft dependencies units i).Nodup := List.nodup_range.filter _

theorem setStatus_planned {u : ExecutionUnit} (hu : units[i]? = some u) (hplanned : u.status = PLANNED) :
    setStatus units i false BLOCKED = some (units.set i { u with status := BLOCKED }) := by
  have hguard : fahes_unit_guard u.executionUnitClass false u.status BLOCKED = true := by
    rw [hplanned]
    simp [fahes_unit_guard, unitTransition, ExecutionUnitStatus.isTerminal]
  simp [setStatus, hu, hguard]

/-- A unit that is over stays as it is. -/
theorem Moves.terminal (h : Moves Blocks units units') {u : ExecutionUnit} (hu : units[i]? = some u)
    (hterm : u.status.isTerminal = true) : units'[i]? = some u := by
  obtain ⟨st, hst, rfl | ⟨hplanned, -⟩⟩ := h.2 i u hu
  · exact hst
  · rw [hplanned] at hterm
    cases hterm

/-- The dependents are blocked, and nothing else changes. -/
theorem foldlM_does (h : js.foldlM (fun units j => setStatus units j false BLOCKED) units = some units') :
    Moves (fun j u st => j ∈ js ∧ Blocks j u st) units units' ∧
      ∀ j ∈ js, ∀ u : ExecutionUnit, units'[j]? = some u → u.status = BLOCKED := by
  induction js generalizing units with
  | nil =>
    cases h
    exact ⟨.refl _, nofun⟩
  | cons j js ih =>
    rw [List.foldlM_cons] at h
    obtain ⟨units₁, h₁, h⟩ := Option.bind_eq_some_iff.mp h
    obtain ⟨hmoves, hblocked⟩ := ih h
    have hfirst := setStatus_moves h₁
    refine ⟨hfirst.trans hmoves ?_ ?_ ?_, ?_⟩
    · rintro i u st ⟨rfl, rfl, hguard⟩
      exact ⟨.head _, guard_blocked hguard, rfl⟩
    · rintro i u st ⟨hi, hb⟩
      exact ⟨.tail _ hi, hb⟩
    · rintro i u st st' ⟨rfl, rfl, hguard⟩ ⟨-, hplanned, -⟩
      cases hplanned
    · intro i hi u hu
      rcases List.mem_cons.mp hi with rfl | hi
      · obtain ⟨v, hv, -, hsame | ⟨-, -, hb⟩⟩ := hmoves.of_get hu
        · simp only [setStatus] at h₁
          split at h₁
          · cases h₁
            rename_i hnone
            rw [hnone] at hv
            cases hv
          · rename_i w hw
            split at h₁ <;> cases h₁
            rw [List.getElem?_set_self (List.getElem?_eq_some_iff.mp hw).1] at hv
            cases hv
            exact hsame
        · exact hb
      · exact hblocked i hi u hu

/-- Planned units can be blocked. -/
theorem foldlM_isSome (hnodup : js.Nodup) (h : ∀ j ∈ js, ∃ u : ExecutionUnit, units[j]? = some u ∧ u.status = PLANNED) :
    ∃ units', js.foldlM (fun units j => setStatus units j false BLOCKED) units = some units' ∧
      liveCount units' + js.length = liveCount units := by
  induction js generalizing units with
  | nil => exact ⟨units, rfl, rfl⟩
  | cons j js ih =>
    obtain ⟨hj, hnodup⟩ := List.nodup_cons.mp hnodup
    obtain ⟨u, hu, hplanned⟩ := h j (.head _)
    obtain ⟨units', hfold, hcount⟩ := @ih (units.set j { u with status := BLOCKED }) hnodup fun k hk => by
      obtain ⟨v, hv, hp⟩ := h k (.tail _ hk)
      refine ⟨v, ?_, hp⟩
      rw [List.getElem?_set_ne (fun e : j = k => hj (e ▸ hk))]
      exact hv
    refine ⟨units', ?_, ?_⟩
    · rw [List.foldlM_cons, setStatus_planned hu hplanned]
      exact hfold
    · have hlive : u.status.isTerminal = false := by rw [hplanned]; rfl
      have hset := countP_set_add (fun u : ExecutionUnit => !u.status.isTerminal) { u with status := BLOCKED } hu
      simp only [hlive, Bool.not_false, if_true, show BLOCKED.isTerminal = true from rfl, Bool.not_true, Bool.false_eq_true,
        if_false] at hset
      simp only [liveCount, List.length_cons] at hcount ⊢
      omega

theorem Fed.moves (h : Fed dependencies units) (hmoves : Moves Blocks units units') : Fed dependencies units' := by
  intro e he u hu hlive hne
  obtain ⟨v, hv, -, hsame | ⟨-, hblocked⟩⟩ := hmoves.of_get hu
  · obtain ⟨d, hd, hdone⟩ := h e he v hv (hsame ▸ hlive) (hsame ▸ hne)
    exact ⟨d, hmoves.terminal hd (by rw [hdone]; rfl), hdone⟩
  · rw [hblocked] at hlive
    cases hlive

/-- **The queue is worked off** if nobody in it is completed. -/
theorem blockDependents_isSome (hfed : Fed dependencies units)
    (hqueue : ∀ i ∈ queue, ∀ v : ExecutionUnit, units[i]? = some v → v.status ≠ COMPLETED)
    (hrounds : queue.length + liveCount units ≤ rounds) : (blockDependents dependencies rounds queue units).isSome = true := by
  induction rounds generalizing queue units with
  | zero =>
    cases queue with
    | nil => rfl
    | cons i queue => simp at hrounds
  | succ rounds ih =>
    cases queue with
    | nil => rfl
    | cons i queue =>
      have hplanned : ∀ j ∈ dependentsLeft dependencies units i, ∃ u : ExecutionUnit, units[j]? = some u ∧ u.status = PLANNED := by
        intro j hj
        obtain ⟨hdep, u, hu, hlive⟩ := mem_dependentsLeft.mp hj
        refine ⟨u, hu, ?_⟩
        by_contra hne
        obtain ⟨v, hv, hdone⟩ := hfed (j, i) hdep u hu hlive hne
        exact hqueue i (.head _) v hv hdone
      obtain ⟨units₁, hfold, hcount⟩ := foldlM_isSome dependentsLeft_nodup hplanned
      have hmoves := foldlM_blocks hfold
      have hrest := @ih units₁ (queue ++ dependentsLeft dependencies units i) (hfed.moves hmoves) ?_ ?_
      · simp only [blockDependents, hfold]
        exact hrest
      · intro j hj v hv
        obtain ⟨w, hw, -, hsame | ⟨-, hblocked⟩⟩ := hmoves.of_get hv
        · rw [hsame]
          rcases List.mem_append.mp hj with hj | hj
          · exact hqueue j (.tail _ hj) w hw
          · obtain ⟨u, hu, hp⟩ := hplanned j hj
            obtain rfl := Option.some.inj (hu.symm.trans hw)
            rw [hp]
            nofun
        · rw [hblocked]
          nofun
      · simp only [List.length_append, List.length_cons] at hrounds ⊢
        omega

/-- **Whatever depends on a unit of the queue is over in the end**, and so is whatever depends on a unit that has been blocked. -/
theorem blockDependents_closed (h : blockDependents dependencies rounds queue units = some units')
    (hi : i ∈ queue ∨ Changed units units' i) (hdep : (j, i) ∈ dependencies) {u : ExecutionUnit} (hu : units'[j]? = some u) :
    u.status.isTerminal = true := by
  induction rounds generalizing queue units i j u with
  | zero =>
    cases queue with
    | nil =>
      cases h
      rcases hi with hi | ⟨v, w, hv, hw, hne⟩
      · cases hi
      · obtain rfl := Option.some.inj (hv.symm.trans hw)
        exact absurd rfl hne
    | cons i queue => cases h
  | succ rounds ih =>
    cases queue with
    | nil =>
      cases h
      rcases hi with hi | ⟨v, w, hv, hw, hne⟩
      · cases hi
      · obtain rfl := Option.some.inj (hv.symm.trans hw)
        exact absurd rfl hne
    | cons i₀ queue =>
      obtain ⟨units₁, h₁, h⟩ := Option.bind_eq_some_iff.mp h
      obtain ⟨hmoves, hblocked⟩ := foldlM_does h₁
      have hlater := blockDependents_moves h
      have hrest (hi : i ∈ queue ++ dependentsLeft dependencies units i₀ ∨ Changed units₁ units' i) : u.status.isTerminal = true :=
        ih h hi hdep hu
      rcases hi with hi | ⟨v, w, hv, hw, hne⟩
      · rcases List.mem_cons.mp hi with rfl | hi
        · -- the dependents of this one are blocked now, or have been over
          obtain ⟨w, hw, -, hsame | ⟨-, hb⟩⟩ := hlater.of_get hu
          · rw [hsame]
            obtain ⟨v, hv, -, hold | ⟨-, -, hb⟩⟩ := hmoves.of_get hw
            · by_contra hlive
              have hmem : j ∈ dependentsLeft dependencies units i :=
                mem_dependentsLeft.mpr ⟨hdep, v, hv, by rw [← hold]; simpa using hlive⟩
              rw [hblocked j hmem w hw] at hlive
              exact hlive rfl
            · rw [hb]
              rfl
          · rw [hb]
            rfl
        · exact hrest (.inl (List.mem_append_left _ hi))
      · obtain ⟨w₁, hw₁, -⟩ := hlater.of_get hw
        obtain ⟨st, hst, hor⟩ := hmoves.2 i v hv
        obtain rfl := Option.some.inj (hst.symm.trans hw₁)
        rcases hor with hsame | ⟨hmem, -⟩
        · exact hrest (.inr ⟨_, w, hst, hw, fun he => hne (he.trans hsame)⟩)
        · exact hrest (.inl (List.mem_append_right _ hmem))

end Queue

/-! ### The finalizer -/

section Finalize

variable {db db' : Tables} {i j : ℕ} {kind : FinalizeKind} {r : FinalizeResult} {u : ExecutionUnit}

theorem mayFinalize_guard (h : mayFinalize kind u = true) : fahes_unit_guard u.executionUnitClass false u.status kind.status = true := by
  unfold mayFinalize at h
  split at h
  case h_8 hstatus =>
    simp only [decide_eq_true_eq] at h
    simp [h, hstatus, FinalizeKind.status, fahes_unit_guard, unitTransition, ExecutionUnitStatus.isTerminal]
  case h_9 => cases h
  all_goals
    rename_i hstatus
    simp [hstatus, FinalizeKind.status, fahes_unit_guard, unitTransition, ExecutionUnitStatus.isTerminal]

/-- **A finalizer does not raise** when it asks for a transition that it may. -/
theorem finalize_isSome (hfed : Fed db.dependencies db.units) (hu : db.units[i]? = some u) (hmay : mayFinalize kind u = true) :
    (fahes_finalize_unit db i kind).isSome = true := by
  have hlive := mayFinalize_live hmay
  have hset : setStatus db.units i false kind.status = some (db.units.set i { u with status := kind.status }) := by
    simp [setStatus, hu, mayFinalize_guard hmay]
  have hself : (db.units.set i { u with status := kind.status })[i]? = some { u with status := kind.status } :=
    List.getElem?_set_self (List.getElem?_eq_some_iff.mp hu).1
  have hprop : (propagate db.dependencies kind i (db.units.set i { u with status := kind.status })).isSome = true := by
    unfold propagate
    split
    · rfl
    rename_i hkind
    refine blockDependents_isSome ?_ ?_ ?_
    · intro e he v hv hvlive hne
      rcases getElem?_set_cases hu hv with ⟨-, rfl⟩ | ⟨-, hv⟩
      · rw [kind_terminal kind] at hvlive
        cases hvlive
      · obtain ⟨w, hw, hdone⟩ := hfed e he v hv hvlive hne
        refine ⟨w, ?_, hdone⟩
        rw [List.getElem?_set_ne]
        · exact hw
        · intro he
          obtain rfl := Option.some.inj ((he ▸ hw).symm.trans hu)
          rw [hdone] at hlive
          cases hlive
    · intro k hk v hv
      obtain rfl := List.mem_singleton.mp hk
      obtain rfl := Option.some.inj (hself.symm.trans hv)
      intro hdone
      apply hkind
      cases kind <;> first | rfl | cases hdone
    · have hle : liveCount (db.units.set i { u with status := kind.status }) ≤ db.units.length := by
        rw [← List.length_set (i := i) (a := { u with status := kind.status })]
        exact List.countP_le_length
      simp only [List.length_singleton, List.length_set]
      omega
  obtain ⟨units, hunits⟩ := Option.isSome_iff_exists.mp hprop
  simp [fahes_finalize_unit, hu, hlive, hmay, hset, hunits]

/-- **What depends on a unit that a finalizer has ended**, or blocked, is over. -/
theorem finalize_closed (h : fahes_finalize_unit db i kind = some (db', r)) (hi : Changed db.units db'.units j)
    (hkind : ∀ v : ExecutionUnit, db'.units[j]? = some v → v.status ≠ COMPLETED) {k : ℕ} (hdep : (k, j) ∈ db.dependencies)
    {v : ExecutionUnit} (hv : db'.units[k]? = some v) : v.status.isTerminal = true := by
  obtain ⟨u, hu, h⟩ := Option.bind_eq_some_iff.mp h
  have hnone (he : db' = db) : v.status.isTerminal = true := by
    obtain ⟨w, w', hw, hw', hne⟩ := hi
    rw [he, hw] at hw'
    cases hw'
    exact absurd rfl hne
  split at h
  · cases h
    exact hnone rfl
  split at h
  · cases h
  obtain ⟨units₁, h₁, h⟩ := Option.bind_eq_some_iff.mp h
  obtain ⟨units₂, h₂, h⟩ := Option.bind_eq_some_iff.mp h
  cases h
  have hset := setStatus_moves h₁
  obtain ⟨w, w', hw, hw', hne⟩ := hi
  obtain ⟨st, hst, hor⟩ := hset.2 j w hw
  unfold propagate at h₂
  split at h₂
  · -- a completed unit blocks nothing
    rename_i hcompleted
    cases h₂
    obtain rfl := Option.some.inj (hst.symm.trans hw')
    rcases hor with hsame | ⟨-, hnew, -⟩
    · exact absurd hsame hne
    · exact absurd (hnew.trans (by rw [hcompleted]; rfl)) (hkind _ hw')
  · rcases hor with hsame | ⟨rfl, -⟩
    · exact blockDependents_closed h₂ (.inr ⟨_, w', hst, hw', fun he => hne (he.trans hsame)⟩) hdep hv
    · exact blockDependents_closed h₂ (.inl (.head _)) hdep hv

end Finalize

/-! ### What anything does to the units -/

/-- Every edge joins two units. -/
def Tables.Wired (db : Tables) : Prop := ∀ e ∈ db.dependencies, e.1 < db.units.length ∧ e.2 < db.units.length

/-- What a unit depends on is completed. -/
def Tables.Met (db : Tables) (i : ℕ) : Prop := ∀ e ∈ db.dependencies, e.1 = i → db.statusOf e.2 = some COMPLETED

/-- What a step does to the units and their edges; `may` tells whose host may win a transition, `passes` which passive unit may be
completed. -/
inductive Turn (may passes : ℕ → Prop) (db : Tables) : Tables → Prop where
  | same {db' : Tables} (hunits : db'.units = db.units) (hdependencies : db'.dependencies = db.dependencies) : Turn may passes db db'
  | plan {plan : ScanPlan} {units : List ExecutionUnit} {edges : List (ℕ × ℕ)} (hok : planOk units edges = true) :
      Turn may passes db { db with
        plans := db.plans ++ [plan]
        units := db.units ++ units.map fun u => { u with scanPlanId := db.plans.length }
        dependencies := db.dependencies ++ edges.map fun e => (e.1 + db.units.length, e.2 + db.units.length) }
  | finalize {db' : Tables} {i : ℕ} {kind : FinalizeKind} {r : FinalizeResult} (h : fahes_finalize_unit db i kind = some (db', r)) :
      Turn may passes db db'
  | passive {db' : Tables} {i : ℕ} {r : FinalizeResult} (hpasses : passes i) (h : fahes_complete_passive_unit db i = some (db', r)) :
      Turn may passes db db'
  | cas {i : ℕ} {edge : HostEdge} {units : List ExecutionUnit} (hmay : may i) (hbefore : db.statusOf i = some edge.before)
      (h : setStatus db.units i false edge.after = some units) : Turn may passes db { db with units }

theorem event_turn {may : ℕ → Prop} {db db' : Tables} {e : Event} (h : db.event e = some db') :
    Turn may (fun i => e = .completePassive i) db db' := by
  cases e with
  | tick ms | createScan scan | setScan i scan | setModule result | setStop k | closeLease n =>
    cases h
    exact .same rfl rfl
  | plan plan units edges =>
    simp only [Tables.event] at h
    split at h <;> cases h
    exact .plan ‹_›
  | renewLease n =>
    simp only [Tables.event] at h
    split at h <;> cases h
    exact .same rfl rfl
  | finalize i kind =>
    obtain ⟨⟨db₁, r⟩, hf, rfl⟩ := Option.map_eq_some_iff.mp h
    exact .finalize hf
  | completePassive i =>
    obtain ⟨⟨db₁, r⟩, hf, rfl⟩ := Option.map_eq_some_iff.mp h
    exact .passive rfl hf

theorem dispatch_turn {db db' : Tables} {token : ℕ} {d : Dispatch} {pc' : DispatchPc} (h : DispatchEffect db token d db' pc') :
    Turn (· = d.host.executionUnitId) (fun _ => False) db db' := by
  cases h with
  | same _ _ | claim _ _ _ | lease _ | free _ => exact .same rfl rfl
  | cas _ hbefore hunits _ => exact .cas rfl hbefore hunits
  | finalize _ hf _ => exact .finalize hf

section Turn

variable {may passes : ℕ → Prop} {db db' : Tables} {i j : ℕ}

/-- The units stay, but for their statuses; new ones may come with edges between them. -/
theorem Turn.keeps (h : Turn may passes db db') : Keeps db db' ∧ db.units.length ≤ db'.units.length := by
  cases h with
  | same hunits _ => exact ⟨fun i u hu => ⟨u.status, by rw [hunits]; exact hu⟩, by rw [hunits]⟩
  | plan _ =>
    refine ⟨fun i u hu => ⟨u.status, ?_⟩, by simp⟩
    exact (List.getElem?_append_left (List.getElem?_eq_some_iff.mp hu).1).trans hu
  | finalize h =>
    obtain ⟨u, -, ⟨-, rfl, -⟩ | ⟨-, -, units, hmoves, -, rfl⟩⟩ := finalize_does h
    · exact ⟨.refl _, le_rfl⟩
    · exact ⟨.of_moves hmoves, hmoves.1.ge⟩
  | passive _ h =>
    obtain ⟨rfl, -⟩ | ⟨-, -, units, hmoves, rfl⟩ := passive_does h
    · exact ⟨.refl _, le_rfl⟩
    · exact ⟨.of_moves hmoves, hmoves.1.ge⟩
  | cas _ _ h =>
    have hmoves := setStatus_moves h
    exact ⟨.of_moves hmoves, hmoves.1.ge⟩

/-- An edge is an old one, or it joins two new units, and who depends on a skipped one is skipped. -/
theorem Turn.edges (h : Turn may passes db db') {e : ℕ × ℕ} (he : e ∈ db'.dependencies) :
    e ∈ db.dependencies ∨ db.units.length ≤ e.1 ∧ db.units.length ≤ e.2 ∧ ∃ u d : ExecutionUnit, db'.units[e.1]? = some u ∧
      db'.units[e.2]? = some d ∧ u.scanPlanId = d.scanPlanId ∧ (d.status.isTerminal = true → u.status.isTerminal = true) := by
  cases h with
  | same _ hdependencies => exact .inl (hdependencies ▸ he)
  | @plan plan units edges hok =>
    refine (List.mem_append.mp he).imp_right fun he => ?_
    obtain ⟨e₀, he₀, rfl⟩ := List.mem_map.mp he
    obtain ⟨hnew, hskip⟩ := Bool.and_eq_true_iff.mp hok
    have hin := List.all_eq_true.mp hskip e₀ he₀
    split at hin
    · rename_i u d hu hd
      refine ⟨Nat.le_add_left _ _, Nat.le_add_left _ _, { u with scanPlanId := db.plans.length },
        { d with scanPlanId := db.plans.length }, ?_, ?_, rfl, fun hterm => ?_⟩
      · rw [List.getElem?_append_right (Nat.le_add_left _ _), Nat.add_sub_cancel, List.getElem?_map, hu]
        rfl
      · rw [List.getElem?_append_right (Nat.le_add_left _ _), Nat.add_sub_cancel, List.getElem?_map, hd]
        rfl
      · have hd₁ : d.status = PLANNED ∨ d.status = SKIPPED := by
          simpa using List.all_eq_true.mp hnew d (List.mem_of_getElem? hd)
        simp only [Bool.or_eq_true, decide_eq_true_eq] at hin
        rcases hd₁ with hd₁ | hd₁
        · rw [show _ = PLANNED from hd₁] at hterm
          cases hterm
        · rw [show _ = SKIPPED from hin.resolve_left fun hne => hne hd₁]
          rfl
    · cases hin
  | finalize h =>
    obtain ⟨u, -, ⟨-, rfl, -⟩ | ⟨-, -, units, -, -, rfl⟩⟩ := finalize_does h <;> exact .inl he
  | passive _ h =>
    obtain ⟨rfl, -⟩ | ⟨-, -, units, -, rfl⟩ := passive_does h <;> exact .inl he
  | cas _ _ _ => exact .inl he

theorem Tables.Wired.turn (hw : db.Wired) (h : Turn may passes db db') : db'.Wired := by
  intro e he
  have hle := h.keeps.2
  rcases h.edges he with he | ⟨-, -, u, d, hu, hd, -, -⟩
  · exact ⟨(hw e he).1.trans_le hle, (hw e he).2.trans_le hle⟩
  · exact ⟨(List.getElem?_eq_some_iff.mp hu).1, (List.getElem?_eq_some_iff.mp hd).1⟩

/-- How the status of a unit may change. -/
inductive Becomes (may : ℕ → Prop) (db : Tables) (i : ℕ) (u : ExecutionUnit) : ExecutionUnitStatus → Prop where
  | ended {kind : FinalizeKind} (hmay : mayFinalize kind u = true) : Becomes may db i u kind.status
  | blocked (hplanned : u.status = PLANNED) : Becomes may db i u BLOCKED
  | passed (hplanned : u.status = PLANNED) (hmet : prerequisitesMet db i = true) : Becomes may db i u COMPLETED
  | refused (hplanned : u.status = PLANNED) : Becomes may db i u REFUSED
  | hosted {edge : HostEdge} (hmay : may i) (hbefore : u.status = edge.before) : Becomes may db i u edge.after

/-- **A unit stays as it is, becomes what a finalizer or its host makes of it, or is new.** -/
theorem Turn.get (h : Turn may passes db db') {u' : ExecutionUnit} (hu' : db'.units[i]? = some u') :
    (∃ u, db.units[i]? = some u ∧ u' = { u with status := u'.status } ∧ (u'.status = u.status ∨ Becomes may db i u u'.status)) ∨
      db.units.length ≤ i ∧ u'.scanPlanId = db.plans.length ∧ (u'.status = PLANNED ∨ u'.status = SKIPPED) := by
  cases h with
  | same hunits _ => exact .inl ⟨u', by rw [← hunits]; exact hu', rfl, .inl rfl⟩
  | @plan plan units edges hok =>
    rw [List.getElem?_append] at hu'
    split at hu'
    · exact .inl ⟨u', hu', rfl, .inl rfl⟩
    · rename_i hle
      obtain ⟨v, hv, rfl⟩ := List.mem_map.mp (List.mem_of_getElem? hu')
      refine .inr ⟨Nat.le_of_not_lt hle, rfl, ?_⟩
      simpa using List.all_eq_true.mp (Bool.and_eq_true_iff.mp hok).1 v hv
  | finalize h =>
    left
    obtain ⟨u, -, ⟨-, rfl, -⟩ | ⟨-, -, units, hmoves, -, rfl⟩⟩ := finalize_does h
    · exact ⟨u', hu', rfl, .inl rfl⟩
    · obtain ⟨v, hv, he, hor⟩ := hmoves.of_get hu'
      refine ⟨v, hv, he, hor.imp_right ?_⟩
      rintro (⟨-, hst, hmay⟩ | ⟨hplanned, hst⟩)
      · rw [hst]
        exact .ended hmay
      · rw [hst]
        exact .blocked hplanned
  | passive _ h =>
    left
    obtain ⟨rfl, -⟩ | ⟨-, hr, units, hmoves, rfl⟩ := passive_does h
    · exact ⟨u', hu', rfl, .inl rfl⟩
    · obtain ⟨v, hv, he, hor⟩ := hmoves.of_get hu'
      refine ⟨v, hv, he, hor.imp_right ?_⟩
      rintro ⟨rfl, hst, hplanned, -⟩
      rw [hst]
      rcases hr with ⟨hr, hmet⟩ | hr
      · rw [hr]
        exact .passed hplanned hmet
      · rw [hr]
        exact .refused hplanned
  | cas hmay hbefore h =>
    left
    obtain ⟨v, hv, he, hor⟩ := (setStatus_moves h).of_get hu'
    refine ⟨v, hv, he, hor.imp_right ?_⟩
    rintro ⟨rfl, hst, -⟩
    rw [hst]
    exact .hosted hmay (Option.some.inj ((statusOf_eq hv).symm.trans hbefore))

theorem Becomes.live {u : ExecutionUnit} {st : ExecutionUnitStatus} (h : Becomes may db i u st) : u.status.isTerminal = false := by
  cases h with
  | ended hmay => exact mayFinalize_live hmay
  | blocked hplanned | passed hplanned _ | refused hplanned => rw [hplanned]; rfl
  | @hosted edge _ hbefore => rw [hbefore]; cases edge <;> rfl

/-- A unit that is over stays as it is. -/
theorem Turn.terminal (h : Turn may passes db db') {u : ExecutionUnit} (hu : db.units[i]? = some u) (hterm : u.status.isTerminal = true) :
    db'.units[i]? = some u := by
  obtain ⟨st, hst⟩ := h.keeps.1 i u hu
  rcases h.get hst with ⟨v, hv, -, hsame | hb⟩ | ⟨hle, -⟩
  · obtain rfl := Option.some.inj (hu.symm.trans hv)
    rw [hst]
    exact congrArg (fun st => some { u with status := st }) hsame
  · obtain rfl := Option.some.inj (hu.symm.trans hv)
    rw [hb.live] at hterm
    cases hterm
  · exact absurd (List.getElem?_eq_some_iff.mp hu).1 (Nat.not_lt.mpr hle)

/-- What a unit depends on stays completed. -/
theorem Tables.Met.turn (hm : db.Met i) (h : Turn may passes db db') (hi : i < db.units.length) : db'.Met i := by
  intro e he hei
  rcases h.edges he with he | ⟨hle, -⟩
  · obtain ⟨u, hu, hdone⟩ := unit_of_status (hm e he hei)
    rw [← hdone]
    exact statusOf_eq (h.terminal hu (by rw [hdone]; rfl))
  · omega

end Turn

/-! ### Nobody waits for a unit that has failed -/

/-- Who depends on a unit that has ended without being completed is over. -/
def Tables.Closed (db : Tables) : Prop :=
  ∀ e ∈ db.dependencies, ∀ u d : ExecutionUnit, db.units[e.1]? = some u → db.units[e.2]? = some d → d.status.isTerminal = true →
    d.status ≠ COMPLETED → u.status.isTerminal = true

/-- `fahes_complete_passive_unit` would refuse the unit. -/
def passiveRefuses (db : Tables) (i : ℕ) : Bool :=
  (db.units[i]?).any fun u =>
    decide (u.status = PLANNED) && (decide (u.executionUnitClass = .PASSIVE_HTTP) || decide (u.executionUnitClass = .SOURCE_STATIC)) &&
      prerequisitesMet db i && (passiveScan db u).any fun scanId => u.domain.any fun domain =>
        (db.moduleResults.find? fun m => m.scanId = scanId && m.module = domain).any fun m =>
          decide (m.state = .FAILED) || decide (m.state = .NOT_APPLICABLE)

/-- No passive unit is refused that others wait for. -/
def refusesAlone (s : State) : Action → Bool
  | .event (.completePassive i) => !passiveRefuses s.db i || (dependentsLeft s.db.dependencies s.db.units i).isEmpty
  | _ => true

section Closed

variable {may passes : ℕ → Prop} {db db' : Tables} {i : ℕ}

theorem passive_refused (h : fahes_complete_passive_unit db i = some (db', ⟨REFUSED, false⟩)) : passiveRefuses db i = true := by
  obtain ⟨u, hu, h⟩ := Option.bind_eq_some_iff.mp h
  split at h
  · simp at h
  split at h
  · cases h
  rename_i hpassive
  obtain ⟨scanId, hscan, h⟩ := Option.bind_eq_some_iff.mp h
  split at h
  · cases h
  rename_i hmet
  obtain ⟨domain, hdomain, h⟩ := Option.bind_eq_some_iff.mp h
  obtain ⟨m, hm, h⟩ := Option.bind_eq_some_iff.mp h
  have hclass : u.status = PLANNED ∧ (u.executionUnitClass = .PASSIVE_HTTP ∨ u.executionUnitClass = .SOURCE_STATIC) := by
    simp only [Bool.or_eq_true, Bool.not_eq_true', decide_eq_true_eq, not_or, Bool.or_eq_false_iff, decide_eq_false_iff_not,
      ne_eq, not_and, not_not] at hpassive
    exact ⟨hpassive.2, by tauto⟩
  have hstate : m.state = .FAILED ∨ m.state = .NOT_APPLICABLE := by
    split at h
    · cases h
    · cases h
    · obtain ⟨units, -, h⟩ := Option.bind_eq_some_iff.mp h
      cases h
    · obtain ⟨units, -, h⟩ := Option.bind_eq_some_iff.mp h
      cases h
    · exact .inl ‹_›
    · exact .inr ‹_›
  simp only [passiveRefuses, hu, Option.any_some, hscan, hdomain, hm, Bool.and_eq_true, decide_eq_true_eq, Bool.or_eq_true]
  exact ⟨⟨hclass, by simpa using hmet⟩, hstate⟩

/-- **A step keeps it**, unless it is a passive unit's refusal that leaves somebody waiting. -/
theorem Tables.Closed.turn (hc : db.Closed) (hw : db.Wired) (h : Turn may passes db db')
    (hpassive : ∀ i, passes i → passiveRefuses db i = true → dependentsLeft db.dependencies db.units i = []) :
    db'.Closed := by
  intro e he u d hu hd hterm hne
  rcases h.edges he with he | ⟨-, -, u', d', hu', hd', -, hskip⟩
  swap
  · obtain rfl := Option.some.inj (hu.symm.trans hu')
    obtain rfl := Option.some.inj (hd.symm.trans hd')
    exact hskip hterm
  obtain ⟨hlt₁, hlt₂⟩ := hw e he
  have hover {v : ExecutionUnit} (hv : db.units[e.1]? = some v) (hv' : v.status.isTerminal = true) : u.status.isTerminal = true := by
    obtain rfl := Option.some.inj ((h.terminal hv hv').symm.trans hu)
    exact hv'
  rcases h.get hd with ⟨d₀, hd₀, -, hchange⟩ | ⟨hle, -⟩
  swap
  · exact absurd hlt₂ (Nat.not_lt.mpr hle)
  by_cases hsame : d.status = d₀.status
  · exact hover (List.getElem?_eq_getElem hlt₁) (hc e he _ d₀ (List.getElem?_eq_getElem hlt₁) hd₀ (hsame ▸ hterm) (hsame ▸ hne))
  -- the unit has just ended
  have hchanged : Changed db.units db'.units e.2 := ⟨d₀, d, hd₀, hd, hsame⟩
  cases h with
  | same hunits _ =>
    rw [hunits, hd₀] at hd
    cases hd
    exact absurd rfl hsame
  | plan _ =>
    rw [List.getElem?_append_left hlt₂, hd₀] at hd
    cases hd
    exact absurd rfl hsame
  | finalize h =>
    refine finalize_closed h hchanged (fun v hv => ?_) he hu
    obtain rfl := Option.some.inj (hd.symm.trans hv)
    exact hne
  | @passive _ i r hpasses h =>
    obtain ⟨rfl, -⟩ | ⟨hr, hstatus, units, hmoves, rfl⟩ := passive_does h
    · rw [hd₀] at hd
      cases hd
      exact absurd rfl hsame
    · obtain ⟨v, hv, -, hv' | ⟨hi, hst, -, -⟩⟩ := hmoves.of_get hd
      · obtain rfl := Option.some.inj (hv.symm.trans hd₀)
        exact absurd hv' hsame
      · have hrefused : r = ⟨REFUSED, false⟩ := by
          obtain ⟨status, replayed⟩ := r
          obtain rfl : replayed = false := hr
          rcases hstatus with ⟨hdone, -⟩ | hrefused
          · exact absurd (hst.trans hdone) hne
          · rw [show status = REFUSED from hrefused]
        have hnobody := hpassive i hpasses (passive_refused (hrefused ▸ h))
        by_contra hlive
        have hmem : e.1 ∈ dependentsLeft db.dependencies db.units i := by
          refine mem_dependentsLeft.mpr ⟨hi ▸ he, _, List.getElem?_eq_getElem hlt₁, ?_⟩
          by_contra hv'
          exact hlive (hover (List.getElem?_eq_getElem hlt₁) (by simpa using hv'))
        rw [hnobody] at hmem
        cases hmem
  | @cas i edge units hmay hbefore h =>
    obtain ⟨v, hv, -, hv' | ⟨-, hst, -⟩⟩ := (setStatus_moves h).of_get hd
    · obtain rfl := Option.some.inj (hv.symm.trans hd₀)
      exact absurd hv' hsame
    · rw [hst] at hterm
      cases edge <;> cases hterm

end Closed

section Runs

variable {s s' : State} {a : Action}

theorem Turn.mono {may may' passes passes' : ℕ → Prop} {db db' : Tables} (h : Turn may passes db db') (hmay : ∀ i, may i → may' i)
    (hpasses : ∀ i, passes i → passes' i) : Turn may' passes' db db' := by
  cases h with
  | same hunits hdependencies => exact .same hunits hdependencies
  | plan hok => exact .plan hok
  | finalize hf => exact .finalize hf
  | passive hp h => exact .passive (hpasses _ hp) h
  | cas hm hbefore hunits => exact .cas (hmay _ hm) hbefore hunits

theorem step_turn (h : step s a s') :
    Turn (fun i => ∃ d ∈ s.dispatches, d.host.executionUnitId = i) (fun i => a = .event (.completePassive i)) s.db s'.db := by
  cases a with
  | event e =>
    obtain ⟨db', he, rfl⟩ := Option.map_eq_some_iff.mp h
    exact (event_turn he : Turn (fun _ => False) _ _ _).mono nofun fun _ hi => congrArg _ hi
  | call host leaseClass margin =>
    cases h
    exact .same rfl rfl
  | run k answer =>
    obtain ⟨d, hk, h⟩ := Option.bind_eq_some_iff.mp h
    obtain ⟨⟨db', pc'⟩, hstep, h⟩ := Option.bind_eq_some_iff.mp h
    cases h
    exact (dispatch_turn (dispatch_does rfl hstep)).mono (fun i hi => ⟨d, List.mem_of_getElem? hk, hi.symm⟩) nofun
  | throw k =>
    obtain ⟨d, hk, h⟩ := Option.bind_eq_some_iff.mp h
    split at h <;> cases h
    exact .same rfl rfl

theorem closed_reachable (h : Reaches (Guarded step fun s a _ => refusesAlone s a = true) .init s) : s.db.Wired ∧ s.db.Closed := by
  refine h.inv (I := fun s => s.db.Wired ∧ s.db.Closed) ⟨nofun, nofun⟩ fun u a u' hu hstep => ?_
  have hturn := step_turn hstep.1
  refine ⟨hu.1.turn hturn, hu.2.turn hu.1 hturn fun i hi hrefuses => ?_⟩
  have hsmooth := hstep.2
  rw [hi] at hsmooth
  simpa [refusesAlone, hrefuses] using hsmooth

/-- **Nobody waits for a unit that has failed**, in every run in which no passive unit is refused that others wait for: of two units
with an edge between them, if the one has ended without being completed, the other is over. -/
theorem nobody_waits (h : Reaches (Guarded step fun s a _ => refusesAlone s a = true) .init s) {e : ℕ × ℕ}
    (he : e ∈ s.db.dependencies) {u d : ExecutionUnit} (hu : s.db.units[e.1]? = some u) (hd : s.db.units[e.2]? = some d)
    (hlive : u.status.isTerminal = false) : d.status.isTerminal = false ∨ d.status = COMPLETED := by
  by_contra hno
  simp only [not_or, Bool.not_eq_false] at hno
  rw [(closed_reachable h).2 e he u d hu hd hno.1 hno.2] at hlive
  cases hlive

/-- A passive unit, one that waits for it, and one that waits for that. -/
def chain : List Event :=
  [.createScan ⟨.RUNNING_PHASE_3, some 0⟩,
    .plan ⟨⟨.INITIAL, .RESOLVED, some 3600000, 0⟩, some 0⟩
      [⟨"unit-1", 7, 0, 3, none, .PASSIVE_HTTP, 60000, 1, some "SEO", PLANNED⟩,
        ⟨"unit-2", 7, 0, 3, some 5, .BROWSER, 60000, 1, none, PLANNED⟩,
        ⟨"unit-3", 7, 0, 3, some 5, .CRAWLER, 60000, 1, none, PLANNED⟩] [(1, 0), (2, 1)]]

theorem unit_of_map {units : List ExecutionUnit} {statuses : List ExecutionUnitStatus} (h : units.map (·.status) = statuses) {i : ℕ}
    {st : ExecutionUnitStatus} (hi : statuses[i]? = some st) : ∃ u : ExecutionUnit, units[i]? = some u ∧ u.status = st := by
  rw [← h, List.getElem?_map] at hi
  exact Option.map_eq_some_iff.mp hi

theorem nobody_waits_blocked : ∃ s, Reaches (Guarded step fun s a _ => refusesAlone s a = true) .init s ∧
    ∃ u d : ExecutionUnit, s.db.units[1]? = some u ∧ s.db.units[0]? = some d ∧ u.status.isTerminal = false ∧
      (d.status.isTerminal = false ∨ d.status = COMPLETED) := by
  obtain ⟨s, hs, hdep, hp⟩ := Reaches.exists_of_play next refusesAlone .init
    (chain.map .event ++ ([.event (.setModule ⟨0, "SEO", .COMPLETE⟩), .event (.completePassive 0)] : List Action))
    (fun s => (1, 0) ∈ s.db.dependencies ∧ s.db.units.map (·.status) = [COMPLETED, PLANNED, PLANNED]) (by decide)
  obtain ⟨u, hu, hplanned⟩ := unit_of_map hp (i := 1) rfl
  obtain ⟨d, hd, -⟩ := unit_of_map hp (i := 0) rfl
  have hlive : u.status.isTerminal = false := by rw [hplanned]; rfl
  exact ⟨s, hs, u, d, hu, hd, hlive, nobody_waits hs hdep hu hd hlive⟩

/-- The module of a passive unit has failed: the unit is refused, and the next one waits for it. -/
theorem waits_for_refused : ¬ ∀ s, Reaches step .init s → ∀ e ∈ s.db.dependencies, ∀ u d : ExecutionUnit,
    s.db.units[e.1]? = some u → s.db.units[e.2]? = some d → u.status.isTerminal = false →
    d.status.isTerminal = false ∨ d.status = COMPLETED := by
  intro hall
  obtain ⟨s, hs, hdep, hp⟩ := Reaches.exists_of_play next (fun _ _ => true) .init
    (chain.map .event ++ ([.event (.setModule ⟨0, "SEO", .FAILED⟩), .event (.completePassive 0)] : List Action))
    (fun s => (1, 0) ∈ s.db.dependencies ∧ s.db.units.map (·.status) = [REFUSED, PLANNED, PLANNED]) (by decide)
  obtain ⟨u, hu, hplanned⟩ := unit_of_map hp (i := 1) rfl
  obtain ⟨d, hd, hrefused⟩ := unit_of_map hp (i := 0) rfl
  have hno := hall s hs.of_guarded (1, 0) hdep u d hu hd (by rw [hplanned]; rfl)
  rw [hrefused] at hno
  rcases hno with hno | hno <;> cases hno

end Runs

end WebAudit.Execution
