import WebAudit.Planning.Deadline

/-!
# A plan that keeps to its bounds ends before its deadline

A schedule of a plan says when its units are picked up and when they end. In a `Legal` one a
unit may be picked up when the last of its predecessors has ended, an attempt waits in the queue
and runs no longer than the plan assumes, and passive work, whose units have no budget of their
own, is over when the passive window is. Then no dispatch is refused for want of time, and
the plan ends by its deadline (`deadline_sound`): the longest path up to a unit bounds its end
(`endedAt_le`), by induction over the order of the units.

That the passive window is counted once is why passive work has to end within it: behind a unit
with a budget, passive units that only keep to bounds of their own would come too late
(`passive_breaks_the_path`).
-/

namespace WebAudit.Planning

open WebAudit.Lib

/-! ### What the critical path says -/

/-- Every attempt of a unit, one after another. -/
def DeadlineUnit.budget (unit : DeadlineUnit) (constants : PlanDeadlineConstants) : ℤ :=
  unit.maxAttempts * (unit.timeoutPolicyMs + unit.hardStopMarginMs + constants.queueWaitAllowanceMs)

variable {units : List DeadlineUnit} {edges : List GraphEdge} {constants : PlanDeadlineConstants}

theorem assertPositiveInteger_ok {value : ℤ} {label : String} (h : assertPositiveInteger value label = .ok ()) :
    0 < value ∧ value < 2 ^ 53 := by
  unfold assertPositiveInteger at h
  split at h
  · cases h
  · rename_i hpass
    simp only [isSafeInteger, Bool.or_eq_true, Bool.not_eq_true', Bool.and_eq_false_iff, decide_eq_false_iff_not,
      decide_eq_true_eq] at hpass
    omega

theorem assertPositiveInteger_of {value : ℤ} (label : String) (hpos : 0 < value) (hsafe : value < 2 ^ 53) :
    assertPositiveInteger value label = .ok () := by
  have h : isSafeInteger value = true := by
    simp only [isSafeInteger, Bool.and_eq_true, decide_eq_true_eq]
    omega
  simp [assertPositiveInteger, h, hpos]

theorem unitBudgetMs_ok {unit : DeadlineUnit} {budget : ℤ} (h : unitBudgetMs unit constants = .ok budget) :
    0 < unit.timeoutPolicyMs ∧ 0 < unit.hardStopMarginMs ∧ 0 < unit.maxAttempts ∧ budget = unit.budget constants := by
  obtain ⟨_, htimeout, h⟩ := bind_ok_iff.mp h
  obtain ⟨_, hmargin, h⟩ := bind_ok_iff.mp h
  obtain ⟨_, hattempts, h⟩ := bind_ok_iff.mp h
  dsimp only at h
  split at h
  · cases h
  · cases h
    exact ⟨(assertPositiveInteger_ok htimeout).1, (assertPositiveInteger_ok hmargin).1,
      (assertPositiveInteger_ok hattempts).1, rfl⟩

/-- The longest path that comes in is no shorter than any. -/
theorem incomingMs_ge (longest : String → Option ℤ) (predecessors : List String) :
    0 ≤ incomingMs longest predecessors ∧
      ∀ p ∈ predecessors, ∀ through, longest p = some through → through ≤ incomingMs longest predecessors := by
  unfold incomingMs
  generalize (0 : ℤ) = start
  induction predecessors generalizing start with
  | nil => exact ⟨le_refl _, fun _ h => by cases h⟩
  | cons p ps ih =>
    rw [List.foldl_cons]
    rcases hp : longest p with _ | through
    · obtain ⟨hstart, hall⟩ := ih start
      refine ⟨hstart, ?_⟩
      rintro q (_ | ⟨_, hq⟩) through hthrough
      · rw [hp] at hthrough
        cases hthrough
      · exact hall q hq through hthrough
    · obtain ⟨hstart, hall⟩ := ih (if through > start then through else start)
      have hmax : start ≤ (if through > start then through else start) ∧
          through ≤ if through > start then through else start := by
        split <;> omega
      refine ⟨hmax.1.trans hstart, ?_⟩
      rintro q (_ | ⟨_, hq⟩) through' hthrough
      · rw [hp] at hthrough
        cases hthrough
        exact hmax.2.trans hstart
      · exact hall q hq through' hthrough

/-- The entries of the units gone through. -/
structure Measured (units : List DeadlineUnit) (edges : List GraphEdge) (constants : PlanDeadlineConstants)
    (listed : List String) (path : CriticalPath) : Prop where
  nonneg : 0 ≤ path.best
  entry : ∀ unit ∈ units, unit.id ∈ listed → isPassiveClass unit.executionUnitClass = false →
    (0 < unit.timeoutPolicyMs ∧ 0 < unit.hardStopMarginMs ∧ 0 < unit.maxAttempts) ∧
      ∃ total, path.longest unit.id = some total ∧ total ≤ path.best ∧ unit.budget constants ≤ total ∧
        ∀ p ∈ predecessorsOf edges unit.id, ∀ through, path.longest p = some through →
          through + unit.budget constants ≤ total

/-- A round of the loop. -/
theorem Measured.visit {listed : List String} {id : String} {path path' : CriticalPath}
    (hunique : (units.map (·.id)).Nodup) (h : Measured units edges constants listed path) (hnew : id ∉ listed)
    (hbefore : ∀ a ∈ listed, id ∉ predecessorsOf edges a) (hself : id ∉ predecessorsOf edges id)
    (hv : path.visit units edges constants id = .ok path') : Measured units edges constants (listed ++ [id]) path' := by
  unfold CriticalPath.visit at hv
  split at hv
  · cases hv
  rename_i unit hfind
  obtain rfl : unit.id = id := by simpa using List.find?_some hfind
  have hmem : unit ∈ units := List.mem_reverse.mp (List.mem_of_find?_eq_some hfind)
  have honly : ∀ unit' ∈ units, unit'.id = unit.id → unit' = unit := fun unit' hmem' e =>
    List.inj_on_of_nodup_map hunique hmem' hmem e
  split at hv
  · -- a passive unit has no entry
    rename_i hpassive
    cases hv
    refine ⟨h.nonneg, fun unit' hmem' hlisted hactive => ?_⟩
    rcases List.mem_append.mp hlisted with hold | hself
    · exact h.entry unit' hmem' hold hactive
    · rw [honly unit' hmem' (List.mem_singleton.mp hself), hpassive] at hactive
      cases hactive
  · obtain ⟨budget, hbudget, hv⟩ := bind_ok_iff.mp hv
    obtain ⟨htimeout, hmargin, hattempts, rfl⟩ := unitBudgetMs_ok hbudget
    obtain ⟨hincoming, hall⟩ := incomingMs_ge path.longest (predecessorsOf edges unit.id)
    dsimp only at hv
    split at hv
    · cases hv
    cases hv
    generalize incomingMs path.longest (predecessorsOf edges unit.id) = incoming at hincoming hall
    have hbest : path.best ≤ (if incoming + unit.budget constants > path.best then incoming + unit.budget constants else path.best) ∧
        incoming + unit.budget constants ≤
          if incoming + unit.budget constants > path.best then incoming + unit.budget constants else path.best := by
      split <;> omega
    refine ⟨h.nonneg.trans hbest.1, fun unit' hmem' hlisted hactive => ?_⟩
    by_cases e : unit'.id = unit.id
    · obtain rfl := honly unit' hmem' e
      refine ⟨⟨htimeout, hmargin, hattempts⟩, incoming + unit'.budget constants, Function.update_self .., hbest.2, ?_, ?_⟩
      · omega
      · intro p hp through hthrough
        have hne : p ≠ unit'.id := by
          rintro rfl
          exact hself hp
        dsimp only at hthrough
        rw [Function.update_of_ne hne] at hthrough
        have := hall p hp through hthrough
        omega
    · have hold : unit'.id ∈ listed := (List.mem_append.mp hlisted).resolve_right fun hs => e (List.mem_singleton.mp hs)
      obtain ⟨hpos, total, htotal, hle, hown, hpaths⟩ := h.entry unit' hmem' hold hactive
      refine ⟨hpos, total, (Function.update_of_ne e ..).trans htotal, hle.trans hbest.1, hown, fun p hp through hthrough => ?_⟩
      have hne : p ≠ unit.id := by
        rintro rfl
        exact hbefore _ hold hp
      dsimp only at hthrough
      rw [Function.update_of_ne hne] at hthrough
      exact hpaths p hp through hthrough

/-- The loop over the order. -/
theorem Measured.foldlM {order : List String} (hunique : (units.map (·.id)).Nodup)
    (horder : Listing (fun a b => b ∈ predecessorsOf edges a) order) (hnd : order.Nodup) {path : CriticalPath}
    (h : order.foldlM (CriticalPath.visit units edges constants) ⟨fun _ => none, 0⟩ = .ok path) :
    Measured units edges constants order path := by
  induction horder generalizing path with
  | nil =>
    cases h
    exact ⟨le_refl _, nofun⟩
  | @snoc listed id hlisted hid ih =>
    rw [List.foldlM_append] at h
    obtain ⟨path', h', hv⟩ := bind_ok_iff.mp h
    obtain ⟨path'', hv, hp⟩ := bind_ok_iff.mp hv
    cases hp
    obtain ⟨hnd', -, hdisjoint⟩ := List.nodup_append.mp hnd
    have hnew : id ∉ listed := fun hmem => hdisjoint id hmem id (List.mem_singleton_self _) rfl
    exact (ih hnd' h').visit hunique hnew (fun a ha hmem => hnew (hlisted.closed a ha id hmem))
      (fun hmem => hnew (hid id hmem)) hv

theorem orderOf_ok {order : List String} (h : orderOf units edges = .ok order) :
    Valid (units.map (·.toGraphUnit)) edges ∧ Listing (fun a b => b ∈ predecessorsOf edges a) order ∧
      order.Perm (units.map (·.id)) := by
  unfold orderOf at h
  rcases ht : topologicalOrder (units.map (·.toGraphUnit)) edges with e | order' <;> rw [ht] at h
  · cases h
  · cases h
    simpa [List.map_map, Function.comp_def] using topologicalOrder_ok ht

/-- What the critical path is the length of. -/
theorem criticalPathMs_ok {critical : ℤ} (h : criticalPathMs units edges constants = .ok critical) :
    ∃ order path, Measured units edges constants order path ∧ path.best = critical ∧ ∀ unit ∈ units, unit.id ∈ order := by
  obtain ⟨order, ho, h⟩ := bind_ok_iff.mp h
  obtain ⟨path, hp, h⟩ := bind_ok_iff.mp h
  obtain ⟨hvalid, hlisting, hperm⟩ := orderOf_ok ho
  have hunique : (units.map (·.id)).Nodup := by simpa [List.map_map, Function.comp_def] using hvalid.ids
  cases h
  exact ⟨order, path, Measured.foldlM hunique hlisting (hperm.nodup_iff.mpr hunique) hp, rfl, fun unit hmem =>
    hperm.mem_iff.mpr (List.mem_map_of_mem hmem)⟩

/-! ### What an accepted plan says -/

/-- What is behind a deadline: the window of the passive units, and the paths of the others. -/
structure Accepted (units : List DeadlineUnit) (edges : List GraphEdge) (constants : PlanDeadlineConstants) (deadlineMs : ℤ) :
    Prop where
  valid : Valid (units.map (·.toGraphUnit)) edges
  order : ∃ order, Listing (fun a b => b ∈ predecessorsOf edges a) order ∧ order.Perm (units.map (·.id))
  legacy : 0 < constants.legacyMaxDurationMs ∧ constants.legacyMaxDurationMs < 2 ^ 53
  wait : 0 < constants.queueWaitAllowanceMs
  positive : 0 < deadlineMs
  safe : deadlineMs < 2 ^ 53
  passive : ∀ unit ∈ units, isPassiveClass unit.executionUnitClass = true → constants.legacyMaxDurationMs ≤ deadlineMs
  paths : (∃ unit ∈ units, isPassiveClass unit.executionUnitClass = false) → ∃ order path windowMs,
    Measured units edges constants order path ∧ (∀ unit ∈ units, unit.id ∈ order) ∧ 0 ≤ windowMs ∧
      (∀ unit ∈ units, isPassiveClass unit.executionUnitClass = true → windowMs = constants.legacyMaxDurationMs) ∧
      windowMs + path.best < deadlineMs

theorem planWindow_ok {deadlineMs : ℤ} {breakdown : DeadlineBreakdown} (hlegacy : 0 < constants.legacyMaxDurationMs)
    (hmargin : 0 < constants.planFinalizationMarginMs)
    (h : planWindow units edges constants = .ok (deadlineMs, breakdown)) :
    0 < deadlineMs ∧
      (∀ unit ∈ units, isPassiveClass unit.executionUnitClass = true → constants.legacyMaxDurationMs ≤ deadlineMs) ∧
      ((∃ unit ∈ units, isPassiveClass unit.executionUnitClass = false) → ∃ order path windowMs,
        Measured units edges constants order path ∧ (∀ unit ∈ units, unit.id ∈ order) ∧ 0 ≤ windowMs ∧
          (∀ unit ∈ units, isPassiveClass unit.executionUnitClass = true → windowMs = constants.legacyMaxDurationMs) ∧
          windowMs + path.best < deadlineMs) := by
  unfold planWindow at h
  dsimp only at h
  split at h
  · rename_i hall
    cases h
    refine ⟨hlegacy, fun _ _ _ => le_refl _, fun ⟨unit, hmem, hactive⟩ => ?_⟩
    simp only [Bool.not_eq_true', List.any_eq_false] at hall
    exact absurd hactive (by simpa using hall unit hmem)
  · obtain ⟨critical, hcritical, h⟩ := bind_ok_iff.mp h
    obtain ⟨order, path, hpath, rfl, hlisted⟩ := criticalPathMs_ok hcritical
    have hbest := hpath.nonneg
    have hwindow : 0 ≤ if (units.any fun u => isPassiveClass u.executionUnitClass) then constants.legacyMaxDurationMs else 0 := by
      split <;> omega
    have hpassive : ∀ unit ∈ units, isPassiveClass unit.executionUnitClass = true →
        (if (units.any fun u => isPassiveClass u.executionUnitClass) then constants.legacyMaxDurationMs else 0) =
          constants.legacyMaxDurationMs := fun unit hmem hp =>
      if_pos (List.any_eq_true.mpr ⟨unit, hmem, hp⟩)
    generalize (if (units.any fun u => isPassiveClass u.executionUnitClass) then constants.legacyMaxDurationMs else 0) = windowMs
      at h hwindow hpassive
    split at h
    · cases h
    cases h
    refine ⟨by omega, fun unit hmem hp => ?_, fun _ => ⟨order, path, _, hpath, hlisted, hwindow, hpassive, by omega⟩⟩
    rw [hpassive unit hmem hp]
    omega

theorem computePlanDeadline_ok {grants : List GrantRef} {now : Option ℤ} {deadlineMs : ℤ} {breakdown : DeadlineBreakdown}
    (h : computePlanDeadline units edges grants now constants = .ok (.deadline deadlineMs breakdown)) :
    Accepted units edges constants deadlineMs := by
  obtain ⟨_, hconstants, h⟩ := bind_ok_iff.mp h
  obtain ⟨_, hlegacy, hconstants⟩ := bind_ok_iff.mp hconstants
  obtain ⟨_, hwait, hconstants⟩ := bind_ok_iff.mp hconstants
  obtain ⟨_, hmargin, hceiling⟩ := bind_ok_iff.mp hconstants
  split at h
  · cases h
  obtain ⟨order, ho, h⟩ := bind_ok_iff.mp h
  obtain ⟨⟨deadlineMs', breakdown'⟩, hw, h⟩ := bind_ok_iff.mp h
  obtain ⟨hvalid, hlisting, hperm⟩ := orderOf_ok ho
  obtain ⟨hpos, hpassive, hpaths⟩ := planWindow_ok (assertPositiveInteger_ok hlegacy).1 (assertPositiveInteger_ok hmargin).1 hw
  dsimp only at h
  split at h
  · cases h
  rename_i hle
  have hceil := (assertPositiveInteger_ok hceiling).2
  obtain ⟨⟨reason, cap⟩, -, h⟩ := bind_ok_iff.mp h
  cases reason with
  | some reason => cases h
  | none =>
    cases h
    exact ⟨hvalid, ⟨order, hlisting, hperm⟩, assertPositiveInteger_ok hlegacy, (assertPositiveInteger_ok hwait).1, hpos,
      by omega, hpassive, hpaths⟩

/-! ### Schedules -/

/-- One attempt of a unit, from its pickup to its end. -/
structure Attempt where
  pickedUpAt : ℤ
  endedAt : ℤ
  deriving DecidableEq

/-- A schedule of a plan: when it starts, the attempts of every unit and when the unit ends. -/
structure Schedule where
  startedAt : ℤ
  attempts : String → List Attempt
  endedAt : String → ℤ

/-- When the last of the predecessors of a unit has ended. -/
def Schedule.eligibleAt (s : Schedule) (edges : List GraphEdge) (id : String) : ℤ :=
  ((predecessorsOf edges id).map s.endedAt).foldl max s.startedAt

/-- Attempts one after another from when the unit may be picked up until it ends, each picked up within the wait that is
allowed for and over within its own time and the margin of its hard stop. -/
inductive Tries (unit : DeadlineUnit) (constants : PlanDeadlineConstants) : ℤ → List Attempt → ℤ → Prop where
  | last {since : ℤ} {a : Attempt} (hwait : a.pickedUpAt ≤ since + constants.queueWaitAllowanceMs)
      (hrun : a.endedAt ≤ a.pickedUpAt + unit.timeoutPolicyMs + unit.hardStopMarginMs) :
      Tries unit constants since [a] a.endedAt
  | again {since : ℤ} {a : Attempt} {as : List Attempt} {endedAt : ℤ}
      (hwait : a.pickedUpAt ≤ since + constants.queueWaitAllowanceMs)
      (hrun : a.endedAt ≤ a.pickedUpAt + unit.timeoutPolicyMs + unit.hardStopMarginMs)
      (h : Tries unit constants a.endedAt as endedAt) : Tries unit constants since (a :: as) endedAt

/-- A schedule within the bounds that the plan assumes. -/
structure Schedule.Legal (s : Schedule) (units : List DeadlineUnit) (edges : List GraphEdge) (constants : PlanDeadlineConstants) :
    Prop where
  passive : ∀ unit ∈ units, isPassiveClass unit.executionUnitClass = true →
    s.endedAt unit.id ≤ s.startedAt + constants.legacyMaxDurationMs
  tried : ∀ unit ∈ units, isPassiveClass unit.executionUnitClass = false →
    Tries unit constants (s.eligibleAt edges unit.id) (s.attempts unit.id) (s.endedAt unit.id)
  attempts : ∀ unit ∈ units, isPassiveClass unit.executionUnitClass = false →
    ((s.attempts unit.id).length : ℤ) ≤ unit.maxAttempts

variable {s : Schedule}

theorem eligibleAt_le {id : String} {bound : ℤ} (hstart : s.startedAt ≤ bound)
    (hends : ∀ p ∈ predecessorsOf edges id, s.endedAt p ≤ bound) : s.eligibleAt edges id ≤ bound := by
  unfold Schedule.eligibleAt
  generalize s.startedAt = start at hstart
  generalize predecessorsOf edges id = predecessors at hends
  induction predecessors generalizing start with
  | nil => exact hstart
  | cons p ps ih =>
    exact ih _ (max_le hstart (hends p (List.mem_cons_self ..))) fun q hq => hends q (List.mem_cons_of_mem _ hq)

/-- What is left of the budget at each pickup is enough, and the unit ends within it. -/
theorem Tries.within {unit : DeadlineUnit} {since endedAt : ℤ} {as : List Attempt} (h : Tries unit constants since as endedAt)
    (htimeout : 0 < unit.timeoutPolicyMs) (hmargin : 0 < unit.hardStopMarginMs) (hwait : 0 < constants.queueWaitAllowanceMs)
    {n : ℤ} (hn : (as.length : ℤ) ≤ n) :
    (∀ a ∈ as, a.pickedUpAt + dispatchThresholdMs unit ≤
        since + n * (unit.timeoutPolicyMs + unit.hardStopMarginMs + constants.queueWaitAllowanceMs)) ∧
      endedAt ≤ since + n * (unit.timeoutPolicyMs + unit.hardStopMarginMs + constants.queueWaitAllowanceMs) := by
  induction h generalizing n with
  | @last since a hw hr =>
    have hone : (1 : ℤ) ≤ n := by simpa using hn
    have hbudget : unit.timeoutPolicyMs + unit.hardStopMarginMs + constants.queueWaitAllowanceMs ≤
        n * (unit.timeoutPolicyMs + unit.hardStopMarginMs + constants.queueWaitAllowanceMs) := by nlinarith
    refine ⟨fun b hb => ?_, by omega⟩
    obtain rfl := List.mem_singleton.mp hb
    unfold dispatchThresholdMs
    omega
  | @again since a as endedAt hw hr _ ih =>
    have hlen : (as.length : ℤ) ≤ n - 1 := by
      rw [List.length_cons] at hn
      omega
    obtain ⟨hpickups, hend⟩ := ih hlen
    have hsplit : n * (unit.timeoutPolicyMs + unit.hardStopMarginMs + constants.queueWaitAllowanceMs) =
        (n - 1) * (unit.timeoutPolicyMs + unit.hardStopMarginMs + constants.queueWaitAllowanceMs) +
          (unit.timeoutPolicyMs + unit.hardStopMarginMs + constants.queueWaitAllowanceMs) := by ring
    have hrest : 0 ≤ (n - 1) * (unit.timeoutPolicyMs + unit.hardStopMarginMs + constants.queueWaitAllowanceMs) :=
      mul_nonneg (by omega) (by omega)
    refine ⟨?_, by omega⟩
    rintro b (_ | ⟨_, hb⟩)
    · unfold dispatchThresholdMs
      omega
    · have := hpickups b hb
      omega

/-! ### Plans that keep to their bounds -/

/-- A unit ends no later than the window of the passive units and the longest path up to it allow. -/
def EndsWithin (s : Schedule) (units : List DeadlineUnit) (path : CriticalPath) (windowMs : ℤ) (id : String) : Prop :=
  ∀ unit ∈ units, unit.id = id →
    (isPassiveClass unit.executionUnitClass = true → s.endedAt id ≤ s.startedAt + windowMs) ∧
      (isPassiveClass unit.executionUnitClass = false → ∀ total, path.longest id = some total →
        s.endedAt id ≤ s.startedAt + windowMs + total)

section Paths

variable {order : List String} {path : CriticalPath} {windowMs : ℤ}

/-- When a unit may be picked up its own budget is still to come. -/
theorem eligibleAt_le_path (hknown : ∀ e ∈ edges, e.dependsOnUnitId ∈ units.map (·.id))
    (hpath : Measured units edges constants order path) (hlisted : ∀ unit ∈ units, unit.id ∈ order) (hwindow : 0 ≤ windowMs)
    {unit : DeadlineUnit} (hmem : unit ∈ units) (hactive : isPassiveClass unit.executionUnitClass = false)
    (hends : ∀ p ∈ predecessorsOf edges unit.id, EndsWithin s units path windowMs p) {total : ℤ}
    (htotal : path.longest unit.id = some total) :
    s.eligibleAt edges unit.id + unit.budget constants ≤ s.startedAt + windowMs + total := by
  obtain ⟨-, total', htotal', -, hown, hpaths⟩ := hpath.entry unit hmem (hlisted unit hmem) hactive
  obtain rfl : total = total' := Option.some.inj (htotal.symm.trans htotal')
  have hbound : s.eligibleAt edges unit.id ≤ s.startedAt + windowMs + (total - unit.budget constants) := by
    refine eligibleAt_le (by omega) fun p hp => ?_
    obtain ⟨q, hq, rfl⟩ := List.mem_map.mp (hknown _ (mem_predecessorsOf.mp hp))
    obtain ⟨hpassive, hrest⟩ := hends q.id hp q hq rfl
    rcases hc : isPassiveClass q.executionUnitClass with _ | _
    · obtain ⟨-, through, hthrough, -⟩ := hpath.entry q hq (hlisted q hq) hc
      have := hrest hc through hthrough
      have := hpaths q.id hp through hthrough
      omega
    · have := hpassive hc
      omega
  omega

/-- What a unit is given, its attempts keep to. -/
theorem Schedule.Legal.tries (hs : s.Legal units edges constants) (hwait : 0 < constants.queueWaitAllowanceMs)
    (hpath : Measured units edges constants order path) (hlisted : ∀ unit ∈ units, unit.id ∈ order) {unit : DeadlineUnit}
    (hmem : unit ∈ units) (hactive : isPassiveClass unit.executionUnitClass = false) :
    (∀ a ∈ s.attempts unit.id,
        a.pickedUpAt + dispatchThresholdMs unit ≤ s.eligibleAt edges unit.id + unit.budget constants) ∧
      s.endedAt unit.id ≤ s.eligibleAt edges unit.id + unit.budget constants := by
  obtain ⟨⟨htimeout, hmargin, -⟩, -⟩ := hpath.entry unit hmem (hlisted unit hmem) hactive
  exact (hs.tried unit hmem hactive).within htimeout hmargin hwait (hs.attempts unit hmem hactive)

/-- **The bound**, by induction over the order of the units. -/
theorem endedAt_le (hknown : ∀ e ∈ edges, e.dependsOnUnitId ∈ units.map (·.id))
    (horder : ∃ l, Listing (fun a b => b ∈ predecessorsOf edges a) l ∧ l.Perm (units.map (·.id)))
    (hwait : 0 < constants.queueWaitAllowanceMs) (hpath : Measured units edges constants order path)
    (hlisted : ∀ unit ∈ units, unit.id ∈ order) (hwindow : 0 ≤ windowMs)
    (hpassive : ∀ unit ∈ units, isPassiveClass unit.executionUnitClass = true → windowMs = constants.legacyMaxDurationMs)
    (hs : s.Legal units edges constants) : ∀ unit ∈ units, EndsWithin s units path windowMs unit.id := by
  obtain ⟨l, hl, hperm⟩ := horder
  have hall : ∀ id ∈ l, EndsWithin s units path windowMs id := by
    refine hl.rule fun id _ hdeps unit hmem e => ?_
    subst e
    constructor
    · intro hp
      rw [hpassive unit hmem hp]
      exact hs.passive unit hmem hp
    · intro hactive total htotal
      have hend := (hs.tries hwait hpath hlisted hmem hactive).2
      have := eligibleAt_le_path hknown hpath hlisted hwindow hmem hactive (fun p hp => (hdeps p hp).2) htotal
      omega
  exact fun unit hmem => hall unit.id (hperm.mem_iff.mpr (List.mem_map_of_mem hmem))

end Paths

/-- Every unit ends by the deadline, and at each pickup more than enough is left. -/
theorem Accepted.bound {deadlineMs : ℤ} (h : Accepted units edges constants deadlineMs) (hs : s.Legal units edges constants)
    {unit : DeadlineUnit} (hmem : unit ∈ units) :
    s.endedAt unit.id ≤ s.startedAt + deadlineMs ∧ (isPassiveClass unit.executionUnitClass = false →
      0 < dispatchThresholdMs unit ∧
        ∀ a ∈ s.attempts unit.id, a.pickedUpAt + dispatchThresholdMs unit ≤ s.startedAt + deadlineMs) := by
  rcases hc : isPassiveClass unit.executionUnitClass with _ | _
  · obtain ⟨order, path, windowMs, hpath, hlisted, hwindow, hpassive, hlt⟩ := h.paths ⟨unit, hmem, hc⟩
    have hknown : ∀ e ∈ edges, e.dependsOnUnitId ∈ units.map (·.id) := fun e he => by
      simpa [List.map_map, Function.comp_def] using (h.valid.known e he).2
    obtain ⟨⟨htimeout, hmargin, -⟩, total, htotal, hbest, -⟩ := hpath.entry unit hmem (hlisted unit hmem) hc
    have hends := endedAt_le hknown h.order h.wait hpath hlisted hwindow hpassive hs
    have heligible := eligibleAt_le_path (s := s) hknown hpath hlisted hwindow hmem hc (fun p hp => by
      obtain ⟨q, hq, rfl⟩ := List.mem_map.mp (hknown _ (mem_predecessorsOf.mp hp))
      exact hends q hq) htotal
    obtain ⟨hpickups, hend⟩ := hs.tries h.wait hpath hlisted hmem hc
    refine ⟨by omega, fun _ => ⟨?_, fun a ha => ?_⟩⟩
    · unfold dispatchThresholdMs
      omega
    · have := hpickups a ha
      omega
  · have hend := hs.passive unit hmem hc
    have hle := h.passive unit hmem hc
    exact ⟨by omega, nofun⟩

/-- With the threshold left there is no reason to refuse. -/
theorem decision_proceed {unit : DeadlineUnit} {now deadlineAt : ℤ} (hpos : 0 < dispatchThresholdMs unit)
    (h : now + dispatchThresholdMs unit ≤ deadlineAt) :
    dispatchDeadlineDecision now (some (newDate deadlineAt)) none unit = .PROCEED := by
  have h₀ : ¬ deadlineAt - now ≤ 0 := by omega
  have h₁ : ¬ deadlineAt - now < dispatchThresholdMs unit := by omega
  unfold newDate
  split
  · simp [dispatchDeadlineDecision, h₀, h₁]
  · rfl

/-- When the time of a plan begins to run. -/
def anchorOf (scan : DeadlineScan) (plan : DeadlinePlan) : Option ℤ :=
  match plan.kind with
  | .INITIAL => scan.startedAt
  | .REVERIFY => some plan.resolvedAt

theorem effectiveDeadlineAt_ok {scan : DeadlineScan} {plan : DeadlinePlan} {startedAt deadlineMs legacyMaxDurationMs : ℤ}
    (hstate : plan.state = .RESOLVED) (hplan : plan.deadlineMs = some deadlineMs) (hanchor : anchorOf scan plan = some startedAt)
    (hpos : 0 < deadlineMs) (hsafe : deadlineMs < 2 ^ 53) (hlegacy : 0 < legacyMaxDurationMs ∧ legacyMaxDurationMs < 2 ^ 53) :
    effectiveDeadlineAt scan (some plan) legacyMaxDurationMs = .ok (some (newDate (startedAt + deadlineMs))) := by
  have hfilter : (some plan).filter (·.state = .RESOLVED) = some plan := by simp [hstate]
  unfold effectiveDeadlineAt
  rw [assertPositiveInteger_of _ hlegacy.1 hlegacy.2, hfilter]
  simp only [hplan, assertPositiveInteger_of _ hpos hsafe, bind, Except.bind]
  unfold anchorOf at hanchor
  split at hanchor
  · rename_i hkind
    simp only [hkind, hanchor]
    rfl
  · rename_i hkind
    cases hanchor
    simp only [hkind]
    rfl

/-- **A plan that keeps to its bounds is never refused for want of time**, and ends by its deadline. -/
theorem deadline_sound {grants : List GrantRef} {now : Option ℤ} {deadlineMs : ℤ} {breakdown : DeadlineBreakdown}
    {scan : DeadlineScan} {plan : DeadlinePlan}
    (hok : computePlanDeadline units edges grants now constants = .ok (.deadline deadlineMs breakdown))
    (hs : s.Legal units edges constants) (hstate : plan.state = .RESOLVED) (hplan : plan.deadlineMs = some deadlineMs)
    (hanchor : anchorOf scan plan = some s.startedAt) :
    ∃ deadlineAt, effectiveDeadlineAt scan (some plan) constants.legacyMaxDurationMs = .ok (some deadlineAt) ∧
      (∀ unit ∈ units, isPassiveClass unit.executionUnitClass = false → ∀ a ∈ s.attempts unit.id,
        dispatchDeadlineDecision a.pickedUpAt (some deadlineAt) none unit = .PROCEED) ∧
      ∀ unit ∈ units, s.endedAt unit.id ≤ s.startedAt + deadlineMs := by
  have h := computePlanDeadline_ok hok
  refine ⟨_, effectiveDeadlineAt_ok hstate hplan hanchor h.positive h.safe h.legacy, ?_, ?_⟩
  · intro unit hmem hactive a ha
    obtain ⟨hpos, hpickups⟩ := (h.bound hs hmem).2 hactive
    exact decision_proceed hpos (hpickups a ha)
  · exact fun unit hmem => (h.bound hs hmem).1

/-! ### Grants -/

theorem capGrants_none {grants : List GrantRef} {deadlineMs now : ℤ} {cap cap' : Option ℤ}
    (h : capGrants deadlineMs now cap grants = .ok (none, cap')) : ∀ g ∈ grants, ∃ t, g.expiresAt = some t ∧ now + deadlineMs ≤ t := by
  induction grants generalizing cap with
  | nil => exact nofun
  | cons g gs ih =>
    unfold capGrants at h
    split at h
    · exact nomatch h
    · rename_i t ht
      dsimp only at h
      split at h
      · exact nomatch h
      · exact List.forall_mem_cons.mpr ⟨⟨t, ht, by omega⟩, ih h⟩

/-- No grant runs out before the deadline. -/
theorem computePlanDeadline_grants {grants : List GrantRef} {now : Option ℤ} {deadlineMs : ℤ} {breakdown : DeadlineBreakdown}
    (h : computePlanDeadline units edges grants now constants = .ok (.deadline deadlineMs breakdown)) :
    deadlineMs ≤ constants.planMaxDeadlineMs ∧
      ∃ at_, now = some at_ ∧ ∀ g ∈ grants, ∃ t, g.expiresAt = some t ∧ at_ + deadlineMs ≤ t := by
  obtain ⟨_, -, h⟩ := bind_ok_iff.mp h
  obtain _ | at_ := now
  · exact nomatch h
  obtain ⟨_, -, h⟩ := bind_ok_iff.mp h
  obtain ⟨⟨ms, breakdown'⟩, -, h⟩ := bind_ok_iff.mp h
  dsimp only at h
  split at h
  · exact nomatch h
  rename_i hceiling
  obtain ⟨⟨reason, cap⟩, hcap, h⟩ := bind_ok_iff.mp h
  cases reason with
  | some reason => exact nomatch h
  | none =>
    cases h
    exact ⟨not_lt.mp hceiling, at_, rfl, capGrants_none hcap⟩

/-- **A plan whose time runs from its resolution on is over before any of its grants is.** -/
theorem ends_before_grants {grants : List GrantRef} {now deadlineMs : ℤ} {breakdown : DeadlineBreakdown}
    (hok : computePlanDeadline units edges grants (some now) constants = .ok (.deadline deadlineMs breakdown))
    (hs : s.Legal units edges constants) (hstart : s.startedAt ≤ now) {g : GrantRef} (hg : g ∈ grants) :
    ∃ t, g.expiresAt = some t ∧ ∀ unit ∈ units, s.endedAt unit.id ≤ t := by
  obtain ⟨-, _, hnow, hgrants⟩ := computePlanDeadline_grants hok
  cases hnow
  obtain ⟨t, ht, hle⟩ := hgrants g hg
  refine ⟨t, ht, fun unit hmem => ?_⟩
  have hend := ((computePlanDeadline_ok hok).bound hs hmem).1
  omega

/-- A crawl that is over after a minute. -/
theorem ends_before_grants_crawl :
    ∃ t : ℤ, some 480000 = some t ∧ ∀ unit ∈ ([⟨⟨"a", .BROWSER⟩, 60000, 60000, 1⟩] : List DeadlineUnit), 60000 ≤ t := by
  refine @ends_before_grants [⟨⟨"a", .BROWSER⟩, 60000, 60000, 1⟩] [] DEFAULT_PLAN_DEADLINE_CONSTANTS
    ⟨0, fun _ => [⟨0, 60000⟩], fun _ => 60000⟩ [⟨"g", some 480000⟩] 0 480000 ⟨0, 180000, 300000, 21600000, some 480000⟩ (by decide)
    ⟨by decide, fun unit hmem _ => ?_, by decide⟩ le_rfl ⟨"g", some 480000⟩ (List.mem_singleton.mpr rfl)
  obtain rfl := List.mem_singleton.mp hmem
  exact .last (by decide) (by decide)

/-! ### A chain broken by a passive unit -/

/-- Every unit keeps to bounds of its own, the passive ones too. -/
def Schedule.OnTime (s : Schedule) (units : List DeadlineUnit) (edges : List GraphEdge) (constants : PlanDeadlineConstants) : Prop :=
  ∀ unit ∈ units, Tries unit constants (s.eligibleAt edges unit.id) (s.attempts unit.id) (s.endedAt unit.id) ∧
    ((s.attempts unit.id).length : ℤ) ≤ unit.maxAttempts

/-- A source execution, a telemetry unit behind it, another source execution behind that. -/
def brokenUnits : List DeadlineUnit :=
  [⟨⟨"a", .SOURCE_EXECUTION⟩, 2030000, 300000, 1⟩, ⟨⟨"b", .TELEMETRY⟩, 100000, 60000, 1⟩,
    ⟨⟨"c", .SOURCE_EXECUTION⟩, 2030000, 300000, 1⟩]

def brokenEdges : List GraphEdge := [⟨"b", "a"⟩, ⟨"c", "b"⟩]

/-- The telemetry begins when the window of the passive units is long over. -/
def lateSchedule : Schedule where
  startedAt := 0
  attempts id :=
    if id = "a" then [⟨60000, 2390000⟩] else if id = "b" then [⟨2390000, 2500000⟩] else [⟨2560000, 4890000⟩]
  endedAt id := if id = "a" then 2390000 else if id = "b" then 2500000 else 4890000

/-- The telemetry is over within the window. -/
def earlySchedule : Schedule where
  startedAt := 0
  attempts id := if id = "a" then [⟨60000, 700000⟩] else if id = "b" then [⟨700000, 800000⟩] else [⟨860000, 3190000⟩]
  endedAt id := if id = "a" then 700000 else if id = "b" then 800000 else 3190000

/-- The schedule of one attempt. -/
theorem tries_once {unit : DeadlineUnit} {since : ℤ} (a : Attempt) (hwait : a.pickedUpAt ≤ since + constants.queueWaitAllowanceMs)
    (hrun : a.endedAt ≤ a.pickedUpAt + unit.timeoutPolicyMs + unit.hardStopMarginMs) :
    Tries unit constants since [a] a.endedAt := .last hwait hrun

/-- **A passive unit breaks the path**: the last unit of the chain is refused though every unit kept to its bounds. -/
theorem passive_breaks_the_path :
    ∃ breakdown deadlineAt, computePlanDeadline brokenUnits brokenEdges [] (some 0) DEFAULT_PLAN_DEADLINE_CONSTANTS =
        .ok (.deadline 3590000 breakdown) ∧
      lateSchedule.OnTime brokenUnits brokenEdges DEFAULT_PLAN_DEADLINE_CONSTANTS ∧
      effectiveDeadlineAt ⟨some 0⟩ (some ⟨.INITIAL, .RESOLVED, some 3590000, 0⟩) 900000 = .ok (some deadlineAt) ∧
      (∃ unit ∈ brokenUnits, isPassiveClass unit.executionUnitClass = false ∧ ∃ a ∈ lateSchedule.attempts unit.id,
        dispatchDeadlineDecision a.pickedUpAt (some deadlineAt) none unit = .REFUSE .SCAN_DEADLINE_INSUFFICIENT) ∧
      ∃ unit ∈ brokenUnits, lateSchedule.startedAt + 3590000 < lateSchedule.endedAt unit.id := by
  refine ⟨⟨900000, 2390000, 300000, 21600000, none⟩, some 3590000, by decide, ?_, rfl,
    ⟨⟨⟨"c", .SOURCE_EXECUTION⟩, 2030000, 300000, 1⟩, by decide, rfl, ⟨2560000, 4890000⟩, by decide, by decide⟩,
    ⟨⟨"c", .SOURCE_EXECUTION⟩, 2030000, 300000, 1⟩, by decide, by decide⟩
  have ha : lateSchedule.eligibleAt brokenEdges "a" = 0 := by decide
  have hb : lateSchedule.eligibleAt brokenEdges "b" = 2390000 := by decide
  have hc : lateSchedule.eligibleAt brokenEdges "c" = 2500000 := by decide
  intro unit hmem
  simp only [brokenUnits, List.mem_cons, List.not_mem_nil, or_false] at hmem
  rcases hmem with rfl | rfl | rfl
  · exact ⟨ha ▸ tries_once ⟨60000, 2390000⟩ (by decide) (by decide), by decide⟩
  · exact ⟨hb ▸ tries_once ⟨2390000, 2500000⟩ (by decide) (by decide), by decide⟩
  · exact ⟨hc ▸ tries_once ⟨2560000, 4890000⟩ (by decide) (by decide), by decide⟩

/-- With the telemetry over in time the chain runs to its end. -/
theorem deadline_sound_telemetry :
    ∃ deadlineAt, effectiveDeadlineAt ⟨some 0⟩ (some ⟨.INITIAL, .RESOLVED, some 3590000, 0⟩) 900000 =
        .ok (some deadlineAt) ∧
      (∀ unit ∈ brokenUnits, isPassiveClass unit.executionUnitClass = false → ∀ a ∈ earlySchedule.attempts unit.id,
        dispatchDeadlineDecision a.pickedUpAt (some deadlineAt) none unit = .PROCEED) ∧
      ∀ unit ∈ brokenUnits, earlySchedule.endedAt unit.id ≤ 0 + 3590000 := by
  refine @deadline_sound brokenUnits brokenEdges DEFAULT_PLAN_DEADLINE_CONSTANTS earlySchedule [] (some 0) 3590000
    ⟨900000, 2390000, 300000, 21600000, none⟩ ⟨some 0⟩ ⟨.INITIAL, .RESOLVED, some 3590000, 0⟩ (by decide) ?_ rfl rfl rfl
  have ha : earlySchedule.eligibleAt brokenEdges "a" = 0 := by decide
  have hc : earlySchedule.eligibleAt brokenEdges "c" = 800000 := by decide
  constructor
  · intro unit hmem
    simp only [brokenUnits, List.mem_cons, List.not_mem_nil, or_false] at hmem
    rcases hmem with rfl | rfl | rfl
    · rintro ⟨⟩
    · exact fun _ => by decide
    · rintro ⟨⟩
  · intro unit hmem
    simp only [brokenUnits, List.mem_cons, List.not_mem_nil, or_false] at hmem
    rcases hmem with rfl | rfl | rfl
    · exact fun _ => ha ▸ tries_once ⟨60000, 700000⟩ (by decide) (by decide)
    · rintro ⟨⟩
    · exact fun _ => hc ▸ tries_once ⟨860000, 3190000⟩ (by decide) (by decide)
  · intro unit hmem
    simp only [brokenUnits, List.mem_cons, List.not_mem_nil, or_false] at hmem
    rcases hmem with rfl | rfl | rfl
    · exact fun _ => by decide
    · rintro ⟨⟩
    · exact fun _ => by decide

end WebAudit.Planning
