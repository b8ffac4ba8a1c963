import WebAudit.Planning.Cycles
import WebAudit.Planning.Schedule

/-!
# The critical path is the longest one

A path is a list of units that are not passive, each depending on the one before. After each
round of `criticalPathMs` the entry of a unit is the most that a path takes which ends in it
(`Longest`), so in the end it is the most that any path takes (`isGreatest_of_ok`). A plan with
more units, edges and time has all paths of the other, and none takes less, so its deadline is
no earlier (`deadline_mono`), unless the other has no unit at all: that one gets the window of
passive work, which can be longer than the path of a unit.
-/

namespace WebAudit.Planning

open WebAudit.Lib

variable {units units' : List DeadlineUnit} {edges edges' : List GraphEdge} {constants : PlanDeadlineConstants}

/-- A directed path of units none of which is passive. -/
structure IsPath (units : List DeadlineUnit) (edges : List GraphEdge) (path : List DeadlineUnit) : Prop where
  units : ∀ unit ∈ path, unit ∈ units ∧ isPassiveClass unit.executionUnitClass = false
  chain : path.IsChain fun u v => Needs edges v.id u.id

/-- What the units of a path take together. -/
def pathBudget (constants : PlanDeadlineConstants) (path : List DeadlineUnit) : ℤ := (path.map (·.budget constants)).sum

/-- What the paths take. -/
def pathBudgets (units : List DeadlineUnit) (edges : List GraphEdge) (constants : PlanDeadlineConstants) : Set ℤ :=
  {b | ∃ path, IsPath units edges path ∧ pathBudget constants path = b}

/-- What the paths take that end in a unit. -/
def pathBudgetsTo (units : List DeadlineUnit) (edges : List GraphEdge) (constants : PlanDeadlineConstants) (unit : DeadlineUnit) :
    Set ℤ :=
  {b | ∃ path, IsPath units edges (path ++ [unit]) ∧ pathBudget constants (path ++ [unit]) = b}

theorem pathBudget_snoc (path : List DeadlineUnit) (unit : DeadlineUnit) :
    pathBudget constants (path ++ [unit]) = pathBudget constants path + unit.budget constants := by
  simp [pathBudget]

theorem pathBudgetsTo_subset (unit : DeadlineUnit) : pathBudgetsTo units edges constants unit ⊆ pathBudgets units edges constants :=
  fun _ ⟨path, hpath, hb⟩ => ⟨path ++ [unit], hpath, hb⟩

theorem IsPath.singleton {unit : DeadlineUnit} (hmem : unit ∈ units) (hactive : isPassiveClass unit.executionUnitClass = false) :
    IsPath units edges [unit] :=
  ⟨fun _ hu => List.mem_singleton.mp hu ▸ ⟨hmem, hactive⟩, .singleton unit⟩

theorem IsPath.snoc {path : List DeadlineUnit} {v unit : DeadlineUnit} (h : IsPath units edges (path ++ [v])) (hmem : unit ∈ units)
    (hactive : isPassiveClass unit.executionUnitClass = false) (hdep : Needs edges unit.id v.id) :
    IsPath units edges (path ++ [v] ++ [unit]) := by
  refine ⟨fun u hu => ?_, List.isChain_append.mpr ⟨h.chain, .singleton unit, fun a ha b hb => ?_⟩⟩
  · rcases List.mem_append.mp hu with hu | hu
    · exact h.units u hu
    · exact List.mem_singleton.mp hu ▸ ⟨hmem, hactive⟩
  · rw [List.getLast?_concat, Option.mem_some_iff] at ha
    rw [List.head?_cons, Option.mem_some_iff] at hb
    subst ha hb
    exact hdep

/-- The last step of a path. -/
theorem IsPath.last {path : List DeadlineUnit} {v unit : DeadlineUnit} (h : IsPath units edges (path ++ [v] ++ [unit])) :
    IsPath units edges (path ++ [v]) ∧ Needs edges unit.id v.id := by
  obtain ⟨hchain, -, hlink⟩ := List.isChain_append.mp h.chain
  exact ⟨⟨fun u hu => h.units u (List.mem_append_left _ hu), hchain⟩, hlink v (by simp) unit (by simp)⟩

/-! ### The rounds of the loop -/

theorem incomingMs_concat (longest : String → Option ℤ) (ps : List String) (p : String) :
    incomingMs longest (ps ++ [p]) = match longest p with
      | some through => if through > incomingMs longest ps then through else incomingMs longest ps
      | none => incomingMs longest ps := by
  unfold incomingMs
  rw [List.foldl_append]
  rfl

/-- The longest path that comes in is one, or there is none. -/
theorem incomingMs_attained (longest : String → Option ℤ) (predecessors : List String) :
    incomingMs longest predecessors = 0 ∨ ∃ p ∈ predecessors, longest p = some (incomingMs longest predecessors) := by
  induction predecessors using List.reverseRecOn with
  | nil => exact .inl rfl
  | append_singleton ps p ih =>
    have hold : incomingMs longest ps = 0 ∨ ∃ q ∈ ps ++ [p], longest q = some (incomingMs longest ps) :=
      ih.imp_right fun ⟨q, hq, h⟩ => ⟨q, List.mem_append_left _ hq, h⟩
    rw [incomingMs_concat]
    rcases hp : longest p with _ | through
    · exact hold
    · dsimp only
      split
      · exact .inr ⟨p, List.mem_append_right _ (List.mem_singleton_self p), hp⟩
      · exact hold

/-- The entries of the units gone through. -/
structure Longest (units : List DeadlineUnit) (edges : List GraphEdge) (constants : PlanDeadlineConstants) (listed : List String)
    (path : CriticalPath) : Prop where
  entry : ∀ unit ∈ units, unit.id ∈ listed → isPassiveClass unit.executionUnitClass = false →
    ∃ total, path.longest unit.id = some total ∧ IsGreatest (pathBudgetsTo units edges constants unit) total
  known : ∀ id total, path.longest id = some total →
    id ∈ listed ∧ ∃ unit ∈ units, unit.id = id ∧ isPassiveClass unit.executionUnitClass = false
  bound : 0 ≤ path.best ∧ ∀ id total, path.longest id = some total → total ≤ path.best
  attained : path.best = 0 ∨ ∃ id, path.longest id = some path.best

/-- The most that a path takes which ends in a unit, from those that end in its predecessors. -/
theorem isGreatest_total {longest : String → Option ℤ} {unit : DeadlineUnit} (hmem : unit ∈ units)
    (hactive : isPassiveClass unit.executionUnitClass = false)
    (hentry : ∀ v ∈ units, v.id ∈ predecessorsOf edges unit.id → isPassiveClass v.executionUnitClass = false →
      ∃ total, longest v.id = some total ∧ IsGreatest (pathBudgetsTo units edges constants v) total)
    (hknown : ∀ id total, longest id = some total → ∃ v ∈ units, v.id = id ∧ isPassiveClass v.executionUnitClass = false) :
    IsGreatest (pathBudgetsTo units edges constants unit)
      (incomingMs longest (predecessorsOf edges unit.id) + unit.budget constants) := by
  obtain ⟨hnonneg, hall⟩ := incomingMs_ge longest (predecessorsOf edges unit.id)
  constructor
  · rcases incomingMs_attained longest (predecessorsOf edges unit.id) with hzero | ⟨p, hp, hthrough⟩
    · exact ⟨[], .singleton hmem hactive, by rw [hzero, pathBudget_snoc]; rfl⟩
    · obtain ⟨v, hv, rfl, hvactive⟩ := hknown p _ hthrough
      obtain ⟨total, htotal, ⟨path, hpath, hsum⟩, -⟩ := hentry v hv hp hvactive
      rw [hthrough, Option.some.injEq] at htotal
      refine ⟨path ++ [v], hpath.snoc hmem hactive (mem_predecessorsOf.mp hp), ?_⟩
      rw [pathBudget_snoc, hsum, htotal]
  · rintro b ⟨path, hpath, rfl⟩
    rw [pathBudget_snoc]
    rcases List.eq_nil_or_concat path with rfl | ⟨path, v, rfl⟩
    · have hempty : pathBudget constants [] = 0 := rfl
      omega
    · rw [List.concat_eq_append] at hpath ⊢
      obtain ⟨hfront, hdep⟩ := hpath.last
      have hv := hfront.units v (by simp)
      have hp : v.id ∈ predecessorsOf edges unit.id := mem_predecessorsOf.mpr hdep
      obtain ⟨total, htotal, -, hupper⟩ := hentry v hv.1 hp hv.2
      have hle := hupper ⟨path, hfront, rfl⟩
      have hincoming := hall v.id hp total htotal
      omega

/-- What can go wrong in a round: a path takes longer than a number can be. -/
def Overflows (units : List DeadlineUnit) (edges : List GraphEdge) (constants : PlanDeadlineConstants) (e : PlanningError) : Prop :=
  e = .deadline "critical path overflows" ∧ ∃ b ∈ pathBudgets units edges constants, isSafeInteger b = false

/-- The numbers of the units that are not passive are such as may be reckoned with. -/
def Bounded (units : List DeadlineUnit) (constants : PlanDeadlineConstants) : Prop :=
  ∀ unit ∈ units, isPassiveClass unit.executionUnitClass = false → ∃ budget, unitBudgetMs unit constants = .ok budget

/-- A round keeps it, or a path is too long. -/
theorem Longest.visit {listed : List String} {id : String} {path : CriticalPath} (hunique : (units.map (·.id)).Nodup)
    (h : Longest units edges constants listed path) (hid : id ∈ units.map (·.id)) (hnew : id ∉ listed)
    (hdeps : ∀ p ∈ predecessorsOf edges id, p ∈ listed) :
    (∀ path', path.visit units edges constants id = .ok path' → Longest units edges constants (listed ++ [id]) path') ∧
      (Bounded units constants → ∀ e, path.visit units edges constants id = .error e → Overflows units edges constants e) := by
  obtain ⟨unit, hmem, hfind, rfl⟩ : ∃ unit ∈ units, units.reverse.find? (·.id = id) = some unit ∧ unit.id = id := by
    obtain ⟨u, hu, hid⟩ := List.mem_map.mp hid
    rcases hf : units.reverse.find? (·.id = id) with _ | unit
    · exact absurd hid (by simpa using List.find?_eq_none.mp hf u (List.mem_reverse.mpr hu))
    · exact ⟨unit, List.mem_reverse.mp (List.mem_of_find?_eq_some hf), hf, by simpa using List.find?_some hf⟩
  have honly : ∀ u ∈ units, u.id = unit.id → u = unit := fun u hu e => List.inj_on_of_nodup_map hunique hu hmem e
  unfold CriticalPath.visit
  rw [hfind]
  dsimp only
  by_cases hpassive : isPassiveClass unit.executionUnitClass = true
  · rw [if_pos hpassive]
    refine ⟨fun path' e => ?_, fun _ => nofun⟩
    cases e
    refine ⟨fun u hu hlisted hactive => ?_, fun id total ht => ?_, h.bound, h.attained⟩
    · rcases List.mem_append.mp hlisted with hold | hself
      · exact h.entry u hu hold hactive
      · rw [honly u hu (List.mem_singleton.mp hself), hpassive] at hactive
        cases hactive
    · exact ⟨List.mem_append_left _ (h.known id total ht).1, (h.known id total ht).2⟩
  · have hactive : isPassiveClass unit.executionUnitClass = false := by simpa using hpassive
    rw [if_neg hpassive]
    rcases hbudget : unitBudgetMs unit constants with e | budget
    · refine ⟨nofun, fun hbounded => ?_⟩
      obtain ⟨budget, hb⟩ := hbounded unit hmem hactive
      rw [hbudget] at hb
      cases hb
    obtain ⟨-, -, -, rfl⟩ := unitBudgetMs_ok hbudget
    have hgreatest : IsGreatest (pathBudgetsTo units edges constants unit)
        (incomingMs path.longest (predecessorsOf edges unit.id) + unit.budget constants) :=
      isGreatest_total hmem hactive (fun v hv hp => h.entry v hv (hdeps _ hp)) fun id total ht => (h.known id total ht).2
    simp only [bind, Except.bind]
    generalize incomingMs path.longest (predecessorsOf edges unit.id) + unit.budget constants = total at hgreatest ⊢
    split
    · rename_i hunsafe
      refine ⟨nofun, fun _ e he => ?_⟩
      cases he
      exact ⟨rfl, total, pathBudgetsTo_subset unit hgreatest.1, by simpa using hunsafe⟩
    · refine ⟨fun path' e => ?_, fun _ => nofun⟩
      cases e
      have hfresh : path.longest unit.id = none := by
        rcases hl : path.longest unit.id with _ | t
        · rfl
        · exact absurd (h.known _ t hl).1 hnew
      have hbest : path.best ≤ (if total > path.best then total else path.best) ∧
          total ≤ if total > path.best then total else path.best := by
        split <;> omega
      refine ⟨fun u hu hlisted huactive => ?_, fun id t ht => ?_, ⟨h.bound.1.trans hbest.1, fun id t ht => ?_⟩, ?_⟩
      · by_cases e : u.id = unit.id
        · obtain rfl := honly u hu e
          exact ⟨total, Function.update_self .., hgreatest⟩
        · obtain ⟨t, ht, hgreat⟩ := h.entry u hu ((List.mem_append.mp hlisted).resolve_right fun hs => e (List.mem_singleton.mp hs)) huactive
          exact ⟨t, (Function.update_of_ne e ..).trans ht, hgreat⟩
      · by_cases e : id = unit.id
        · exact ⟨e ▸ List.mem_append_right _ (List.mem_singleton_self _), unit, hmem, e.symm, hactive⟩
        · dsimp only at ht
          rw [Function.update_of_ne e] at ht
          exact ⟨List.mem_append_left _ (h.known id t ht).1, (h.known id t ht).2⟩
      · by_cases e : id = unit.id
        · dsimp only at ht
          rw [e, Function.update_self, Option.some.injEq] at ht
          exact ht ▸ hbest.2
        · dsimp only at ht
          rw [Function.update_of_ne e] at ht
          exact (h.bound.2 id t ht).trans hbest.1
      · dsimp only
        split
        · exact .inr ⟨unit.id, Function.update_self ..⟩
        · refine h.attained.imp_right fun ⟨id, hid⟩ => ⟨id, ?_⟩
          rw [Function.update_of_ne]
          · exact hid
          · rintro rfl
            rw [hfresh] at hid
            cases hid

/-- When all units have been gone through, the best entry is the most that any path takes. -/
theorem Longest.isGreatest {listed : List String} {path : CriticalPath} (h : Longest units edges constants listed path)
    (hall : ∀ unit ∈ units, unit.id ∈ listed) : IsGreatest (pathBudgets units edges constants) path.best := by
  constructor
  · rcases h.attained with hzero | ⟨id, hid⟩
    · exact ⟨[], ⟨nofun, .nil⟩, hzero.symm⟩
    · obtain ⟨hlisted, unit, hu, rfl, hactive⟩ := h.known id _ hid
      obtain ⟨total, htotal, hgreatest⟩ := h.entry unit hu hlisted hactive
      rw [hid, Option.some.injEq] at htotal
      exact htotal ▸ pathBudgetsTo_subset unit hgreatest.1
  · rintro b ⟨p, hp, rfl⟩
    rcases List.eq_nil_or_concat p with rfl | ⟨p, unit, rfl⟩
    · exact h.bound.1
    · rw [List.concat_eq_append] at hp ⊢
      obtain ⟨hu, hactive⟩ := hp.units unit (by simp)
      obtain ⟨total, htotal, -, hupper⟩ := h.entry unit hu (hall unit hu) hactive
      exact (hupper ⟨p, hp, rfl⟩).trans (h.bound.2 _ _ htotal)

/-- The loop over the order. -/
theorem Longest.foldlM {order : List String} (hunique : (units.map (·.id)).Nodup)
    (horder : Listing (fun a b => b ∈ predecessorsOf edges a) order) (hnd : order.Nodup) (hids : ∀ id ∈ order, id ∈ units.map (·.id)) :
    (∀ path, order.foldlM (CriticalPath.visit units edges constants) ⟨fun _ => none, 0⟩ = .ok path →
      Longest units edges constants order path) ∧
      (Bounded units constants → ∀ e, order.foldlM (CriticalPath.visit units edges constants) ⟨fun _ => none, 0⟩ = .error e →
        Overflows units edges constants e) := by
  induction horder with
  | nil =>
    refine ⟨fun path h => ?_, fun _ => nofun⟩
    cases h
    exact ⟨nofun, nofun, ⟨le_refl _, nofun⟩, .inl rfl⟩
  | @snoc listed id _ hid ih =>
    obtain ⟨hnd', -, hdisjoint⟩ := List.nodup_append.mp hnd
    obtain ⟨hok, herror⟩ := ih hnd' fun id hid => hids id (List.mem_append_left _ hid)
    have hlast (path : CriticalPath) : [id].foldlM (CriticalPath.visit units edges constants) path =
        path.visit units edges constants id := by simp
    rw [List.foldlM_append]
    rcases hl : listed.foldlM (CriticalPath.visit units edges constants) ⟨fun _ => none, 0⟩ with e | path <;>
      simp only [bind, Except.bind]
    · refine ⟨nofun, fun hbounded e' he => ?_⟩
      cases he
      exact herror hbounded e hl
    · have hnew : id ∉ listed := fun hmem => hdisjoint id hmem id (List.mem_singleton_self _) rfl
      rw [hlast]
      exact (hok path hl).visit hunique (hids id (List.mem_append_right _ (List.mem_singleton_self id))) hnew hid

/-- **The critical path is the longest one**; of a valid graph there is one, or a path is too long for a number. -/
theorem criticalPathMs_spec (units : List DeadlineUnit) (edges : List GraphEdge) (constants : PlanDeadlineConstants) :
    (∀ c, criticalPathMs units edges constants = .ok c → IsGreatest (pathBudgets units edges constants) c) ∧
      (validateExecutionGraph (units.map (·.toGraphUnit)) edges = .ok () → Bounded units constants →
        ∀ e, criticalPathMs units edges constants = .error e → Overflows units edges constants e) := by
  unfold criticalPathMs
  rcases horder : orderOf units edges with e | order <;> simp only [bind, Except.bind]
  · refine ⟨nofun, fun hok => ?_⟩
    rw [orderOf, topologicalOrder_eq hok] at horder
    cases horder
  obtain ⟨hvalid, hlisting, hperm⟩ := orderOf_ok horder
  have hunique : (units.map (·.id)).Nodup := by simpa [List.map_map, Function.comp_def] using hvalid.ids
  obtain ⟨hok, herror⟩ := Longest.foldlM hunique hlisting (hperm.nodup_iff.mpr hunique) fun id hid => hperm.mem_iff.mp hid
  rcases hl : order.foldlM (CriticalPath.visit units edges constants) ⟨fun _ => none, 0⟩ with e | path
  · refine ⟨nofun, fun _ hbounded e' he => ?_⟩
    cases he
    exact herror hbounded e hl
  · refine ⟨fun c hc => ?_, fun _ _ => nofun⟩
    cases hc
    exact (hok path hl).isGreatest fun unit hu => hperm.mem_iff.mpr (List.mem_map_of_mem hu)

/-! ### More units, edges and time -/

/-- The other plan has all units, with no less time, and all edges. -/
structure Extends (units : List DeadlineUnit) (edges : List GraphEdge) (units' : List DeadlineUnit) (edges' : List GraphEdge) : Prop where
  units : ∀ unit ∈ units, ∃ unit' ∈ units', unit'.toGraphUnit = unit.toGraphUnit ∧ unit.timeoutPolicyMs ≤ unit'.timeoutPolicyMs ∧
    unit.hardStopMarginMs ≤ unit'.hardStopMarginMs ∧ unit.maxAttempts ≤ unit'.maxAttempts
  edges : ∀ e ∈ edges, e ∈ edges'

/-- What has been asserted of the numbers of a unit when the critical path was found. -/
theorem positive_of_ok {unit : DeadlineUnit} {critical : ℤ} (h : criticalPathMs units edges constants = .ok critical) (hmem : unit ∈ units)
    (hactive : isPassiveClass unit.executionUnitClass = false) :
    0 < unit.timeoutPolicyMs ∧ 0 < unit.hardStopMarginMs ∧ 0 < unit.maxAttempts := by
  obtain ⟨order, path, hmeasured, -, hall⟩ := criticalPathMs_ok h
  exact (hmeasured.entry unit hmem (hall unit hmem) hactive).1

/-- More time makes a path longer. -/
theorem criticalPath_mono {c c' : ℤ} (hwait : 0 < constants.queueWaitAllowanceMs) (hext : Extends units edges units' edges')
    (h : criticalPathMs units edges constants = .ok c) (h' : criticalPathMs units' edges' constants = .ok c') : c ≤ c' := by
  obtain ⟨path, hpath, rfl⟩ := ((criticalPathMs_spec units edges constants).1 c h).1
  choose! f hf using hext.units
  have hmem : ∀ u ∈ path, u ∈ units := fun u hu => (hpath.units u hu).1
  have hid : ∀ u ∈ path, (f u).toGraphUnit = u.toGraphUnit := fun u hu => (hf u (hmem u hu)).2.1
  have hmapped : IsPath units' edges' (path.map f) := by
    refine ⟨fun v hv => ?_, (List.isChain_map f).mpr (hpath.chain.imp_of_mem_imp fun u v hu hv huv => ?_)⟩
    · obtain ⟨u, hu, rfl⟩ := List.mem_map.mp hv
      refine ⟨(hf u (hmem u hu)).1, ?_⟩
      rw [hid u hu]
      exact (hpath.units u hu).2
    · rw [hid u hu, hid v hv]
      exact hext.edges _ huv
  have hle : pathBudget constants path ≤ pathBudget constants (path.map f) := by
    unfold pathBudget
    rw [List.map_map]
    refine List.sum_le_sum fun u hu => ?_
    obtain ⟨-, -, htimeout, hmargin, hattempts⟩ := hf u (hmem u hu)
    obtain ⟨ht, hm, ha⟩ := positive_of_ok h (hmem u hu) (hpath.units u hu).2
    unfold DeadlineUnit.budget Function.comp
    exact mul_le_mul hattempts (by omega) (by omega) (by omega)
  exact hle.trans (((criticalPathMs_spec units' edges' constants).1 c' h').2 ⟨_, hmapped, rfl⟩)

/-- What a deadline is the sum of. -/
theorem deadline_eq {grants : List GrantRef} {now : Option ℤ} {d : ℤ} {breakdown : DeadlineBreakdown}
    (h : computePlanDeadline units edges grants now constants = .ok (.deadline d breakdown)) :
    0 < constants.legacyMaxDurationMs ∧ 0 < constants.queueWaitAllowanceMs ∧ 0 < constants.planFinalizationMarginMs ∧
      ((∀ u ∈ units, isPassiveClass u.executionUnitClass = true) ∧ d = constants.legacyMaxDurationMs ∨
        ∃ critical, (∃ u ∈ units, isPassiveClass u.executionUnitClass = false) ∧ criticalPathMs units edges constants = .ok critical ∧
          d = (if units.any fun u => isPassiveClass u.executionUnitClass then constants.legacyMaxDurationMs else 0) + critical +
            constants.planFinalizationMarginMs) := by
  obtain ⟨_, hconstants, h⟩ := bind_ok_iff.mp h
  obtain ⟨_, hlegacy, hconstants⟩ := bind_ok_iff.mp hconstants
  obtain ⟨_, hwait, hconstants⟩ := bind_ok_iff.mp hconstants
  obtain ⟨_, hmargin, -⟩ := bind_ok_iff.mp hconstants
  refine ⟨(assertPositiveInteger_ok hlegacy).1, (assertPositiveInteger_ok hwait).1, (assertPositiveInteger_ok hmargin).1, ?_⟩
  split at h
  · cases h
  obtain ⟨order, -, h⟩ := bind_ok_iff.mp h
  obtain ⟨⟨d', breakdown'⟩, hw, h⟩ := bind_ok_iff.mp h
  have hd : d' = d := by
    dsimp only at h
    split at h
    · cases h
    obtain ⟨⟨reason, cap⟩, -, h⟩ := bind_ok_iff.mp h
    cases reason <;> cases h
    rfl
  subst hd
  unfold planWindow at hw
  dsimp only at hw
  split at hw
  · rename_i hnone
    cases hw
    refine .inl ⟨fun u hu => ?_, rfl⟩
    simp only [Bool.not_eq_true', List.any_eq_false] at hnone
    simpa using hnone u hu
  · rename_i hsome
    obtain ⟨critical, hcritical, hw⟩ := bind_ok_iff.mp hw
    simp only [Bool.not_eq_true', Bool.not_eq_false, List.any_eq_true] at hsome
    refine .inr ⟨critical, hsome, hcritical, ?_⟩
    generalize (if units.any fun u => isPassiveClass u.executionUnitClass then constants.legacyMaxDurationMs else 0) = windowMs at hw ⊢
    split at hw
    · cases hw
    · cases hw
      rfl

/-- The deadline of a plan with more units, edges or time is no earlier. -/
theorem deadline_mono {grants grants' : List GrantRef} {now now' : Option ℤ} {d d' : ℤ} {breakdown breakdown' : DeadlineBreakdown}
    (hne : units ≠ []) (hext : Extends units edges units' edges')
    (h : computePlanDeadline units edges grants now constants = .ok (.deadline d breakdown))
    (h' : computePlanDeadline units' edges' grants' now' constants = .ok (.deadline d' breakdown')) : d ≤ d' := by
  obtain ⟨hlegacy, hwait, hmargin, hd⟩ := deadline_eq h
  obtain ⟨-, -, -, hd'⟩ := deadline_eq h'
  have hpassive : (∃ u ∈ units, isPassiveClass u.executionUnitClass = true) → ∃ u ∈ units', isPassiveClass u.executionUnitClass = true := by
    rintro ⟨u, hu, hclass⟩
    obtain ⟨u', hu', hsame, -⟩ := hext.units u hu
    exact ⟨u', hu', by rw [hsame]; exact hclass⟩
  have hactive : (∃ u ∈ units, isPassiveClass u.executionUnitClass = false) → ∃ u ∈ units', isPassiveClass u.executionUnitClass = false := by
    rintro ⟨u, hu, hclass⟩
    obtain ⟨u', hu', hsame, -⟩ := hext.units u hu
    exact ⟨u', hu', by rw [hsame]; exact hclass⟩
  have hwindow {us : List DeadlineUnit} : (us.any fun u => isPassiveClass u.executionUnitClass) = true ↔
      ∃ u ∈ us, isPassiveClass u.executionUnitClass = true := List.any_eq_true
  rcases hd with ⟨hall, rfl⟩ | ⟨c, hsome, hc, rfl⟩
  · obtain ⟨u, hu⟩ := List.exists_mem_of_ne_nil units hne
    rcases hd' with ⟨-, rfl⟩ | ⟨c', -, hc', rfl⟩
    · exact le_refl _
    · rw [if_pos (hwindow.mpr (hpassive ⟨u, hu, hall u hu⟩))]
      have hnonneg := ((criticalPathMs_spec units' edges' constants).1 c' hc').2 ⟨[], ⟨nofun, .nil⟩, rfl⟩
      have hempty : pathBudget constants [] = 0 := rfl
      omega
  · rcases hd' with ⟨hall', -⟩ | ⟨c', -, hc', rfl⟩
    · obtain ⟨u', hu', hclass⟩ := hactive hsome
      rw [hall' u' hu'] at hclass
      cases hclass
    · have hcritical := criticalPath_mono hwait hext hc hc'
      by_cases hp : (units.any fun u => isPassiveClass u.executionUnitClass) = true
      · rw [if_pos hp, if_pos (hwindow.mpr (hpassive (hwindow.mp hp)))]
        omega
      · rw [if_neg hp]
        split <;> omega

/-- **The critical path of a graph is the longest path of units that are not passive**, and the deadline of a plan with more
units, edges or time is no earlier, if the plan has units at all. -/
theorem criticalPath_and_deadline (units : List DeadlineUnit) (edges : List GraphEdge) (constants : PlanDeadlineConstants) :
    ((∀ c, criticalPathMs units edges constants = .ok c → IsGreatest (pathBudgets units edges constants) c) ∧
      (validateExecutionGraph (units.map (·.toGraphUnit)) edges = .ok () → Bounded units constants →
        ∀ e, criticalPathMs units edges constants = .error e → Overflows units edges constants e)) ∧
      (units ≠ [] → ∀ units' edges' grants grants' now now' d d' breakdown breakdown', Extends units edges units' edges' →
        computePlanDeadline units edges grants now constants = .ok (.deadline d breakdown) →
          computePlanDeadline units' edges' grants' now' constants = .ok (.deadline d' breakdown') → d ≤ d') :=
  ⟨criticalPathMs_spec units edges constants, fun hne _ _ _ _ _ _ _ _ _ _ hext h h' => deadline_mono hne hext h h'⟩

/-- A plan without units gets the window of passive work, and a plan with one short unit an earlier deadline. -/
theorem first_unit_shortens :
    ¬ ∀ (units units' : List DeadlineUnit) (edges edges' : List GraphEdge) (grants : List GrantRef) (now : Option ℤ) (d d' : ℤ)
      (breakdown breakdown' : DeadlineBreakdown), Extends units edges units' edges' →
        computePlanDeadline units edges grants now DEFAULT_PLAN_DEADLINE_CONSTANTS = .ok (.deadline d breakdown) →
          computePlanDeadline units' edges' grants now DEFAULT_PLAN_DEADLINE_CONSTANTS = .ok (.deadline d' breakdown') → d ≤ d' := by
  intro h
  have hle := h [] [⟨⟨"a", .BROWSER⟩, 1000, 60000, 1⟩] [] [] [] (some 0) 900000 421000 ⟨900000, 0, 0, 21600000, none⟩
    ⟨0, 121000, 300000, 21600000, none⟩ ⟨nofun, nofun⟩ (by decide) (by decide)
  exact absurd hle (by decide)

end WebAudit.Planning
