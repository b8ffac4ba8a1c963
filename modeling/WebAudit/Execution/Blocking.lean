import WebAudit.Execution.Units
import WebAudit.Lib.Runs
import WebAudit.Planning.Cycles

/-!
# What a failed unit blocks

`dependentsToBlock` and `transitiveBlocked` of `services/planning/graph.ts`. The first says what one
finalized unit blocks, its direct dependents that are not over; the runtime applies it to the failed
unit and to every unit that has been blocked, in whatever order. The second goes through
the graph at once.

## What is proved

However the first is applied, it comes to an end, and then those units are blocked that the failed
unit reaches through dependents that were not over before (`blocking_is_closure`). The second
does not look at statuses: its units are the same ones if none of them was over.
-/

namespace WebAudit.Execution

open WebAudit.Planning WebAudit.Lib
open Relation (TransGen)

/-! ### One level -/

/-- The text of a status. -/
def ExecutionUnitStatus.text : ExecutionUnitStatus → String
  | .PLANNED => "PLANNED"
  | .ADMITTED => "ADMITTED"
  | .DISPATCHED => "DISPATCHED"
  | .RUNNING => "RUNNING"
  | .SKIPPED => "SKIPPED"
  | .BLOCKED => "BLOCKED"
  | .REFUSED => "REFUSED"
  | .COMPLETED => "COMPLETED"
  | .FAILED => "FAILED"
  | .CANCELLED => "CANCELLED"
  | .KILLED => "KILLED"

/-- A unit blocked by a finalized predecessor. -/
structure BlockedDependent where
  unitId : String
  blockedByExecutionUnitId : String
  deriving DecidableEq

/-- What one finalized unit blocks; the text is that of the `RangeError`. -/
def dependentsToBlock (finalizedUnitId : String) (finalizedStatus : ExecutionUnitStatus) (edges : List GraphEdge)
    (statusOf : String → ExecutionUnitStatus) : Except String (List BlockedDependent) :=
  if !finalizedStatus.isTerminal then
    .error ("unit " ++ finalizedUnitId ++ " is not finalized (" ++ finalizedStatus.text ++ ")")
  else if finalizedStatus = .COMPLETED then .ok []
  else .ok (((dependentsOf edges finalizedUnitId).filter fun id => !(statusOf id).isTerminal).map fun id => ⟨id, finalizedUnitId⟩)

/-! ### All levels -/

/-- The variables of the loop; the map is the list of its entries. -/
structure Spread where
  queue : List String
  blockedBy : List (String × String)

/-- A dependent of the unit last taken from the queue. -/
def Spread.visit (failedUnitId current : String) (s : Spread) (dependent : String) : Spread :=
  if dependent = failedUnitId || (s.blockedBy.map (·.1)).contains dependent then s
  else ⟨s.queue ++ [dependent], s.blockedBy ++ [(dependent, current)]⟩

/-- The loop. -/
def Spread.run (failedUnitId : String) (edges : List GraphEdge) : ℕ → Spread → Spread
  | 0, s => s
  | rounds + 1, s =>
    match s.queue with
    | [] => s
    | current :: queue => run failedUnitId edges rounds ((dependentsOf edges current).foldl (visit failedUnitId current) { s with queue })

/-- Every unit that ends non-`COMPLETED` when one fails, with one that it is blocked by. -/
def transitiveBlocked (failedUnitId : String) (edges : List GraphEdge) : List (String × String) :=
  (Spread.run failedUnitId edges (edges.length + 1) ⟨[failedUnitId], []⟩).blockedBy

/-! ### What depends on a unit -/

/-- The second unit depends on the first and may be blocked. -/
def PassesOn (edges : List GraphEdge) (may : String → Prop) (x y : String) : Prop := Needs edges y x ∧ may y

variable {edges : List GraphEdge} {may : String → Prop} {failed : String} {keys : List String}

/-- Units that are reached, and among them all dependents, are those that are reached. -/
theorem mem_iff_blocks (hsound : ∀ k ∈ keys, TransGen (PassesOn edges may) failed k)
    (hclosed : ∀ x, x = failed ∨ x ∈ keys → ∀ y, PassesOn edges may x y → y ∈ keys) (k : String) :
    k ∈ keys ↔ TransGen (PassesOn edges may) failed k := by
  refine ⟨hsound k, fun h => ?_⟩
  induction h with
  | single h => exact hclosed _ (.inl rfl) _ h
  | tail _ h ih => exact hclosed _ (.inr ih) _ h

section Spread

variable {s : Spread}

/-- What a round of the loop adds. -/
theorem foldl_visit (current : String) (dependents : List String) (s : Spread) :
    ∃ new, (dependents.foldl (Spread.visit failed current) s).queue = s.queue ++ new ∧
      (dependents.foldl (Spread.visit failed current) s).blockedBy.map (·.1) = s.blockedBy.map (·.1) ++ new ∧ new.Nodup ∧
      (∀ k ∈ new, k ∈ dependents ∧ k ≠ failed ∧ k ∉ s.blockedBy.map (·.1)) ∧
      ∀ d ∈ dependents, d ≠ failed → d ∈ s.blockedBy.map (·.1) ++ new := by
  induction dependents generalizing s with
  | nil => exact ⟨[], by simp⟩
  | cons d ds ih =>
    rw [List.foldl_cons]
    by_cases hskip : d = failed ∨ d ∈ s.blockedBy.map (·.1)
    · have hvisit : s.visit failed current d = s := if_pos (by simpa using hskip)
      obtain ⟨new, hqueue, hkeys, hnd, hnew, hall⟩ := ih s
      rw [hvisit]
      refine ⟨new, hqueue, hkeys, hnd, fun k hk => ⟨List.mem_cons_of_mem _ (hnew k hk).1, (hnew k hk).2⟩, ?_⟩
      rintro x (_ | ⟨_, hx⟩) hne
      · exact List.mem_append_left _ (hskip.resolve_left hne)
      · exact hall x hx hne
    · have hvisit : s.visit failed current d = ⟨s.queue ++ [d], s.blockedBy ++ [(d, current)]⟩ := if_neg (by simpa using hskip)
      obtain ⟨new, hqueue, hkeys, hnd, hnew, hall⟩ := ih ⟨s.queue ++ [d], s.blockedBy ++ [(d, current)]⟩
      obtain ⟨hne, hfresh⟩ := not_or.mp hskip
      rw [hvisit]
      simp only [List.map_append, List.map_cons, List.map_nil, List.append_assoc, List.singleton_append] at hqueue hkeys hnew hall
      refine ⟨d :: new, hqueue, hkeys, List.nodup_cons.mpr ⟨fun hmem => ?_, hnd⟩, ?_, ?_⟩
      · exact (hnew d hmem).2.2 (List.mem_append_right _ (List.mem_singleton_self d))
      · rintro k (_ | ⟨_, hk⟩)
        · exact ⟨List.mem_cons_self .., hne, hfresh⟩
        · obtain ⟨hmem, hk, hold⟩ := hnew k hk
          exact ⟨List.mem_cons_of_mem _ hmem, hk, fun h => hold (List.mem_append_left _ h)⟩
      · rintro x (_ | ⟨_, hx⟩) hx'
        · simp
        · exact hall x hx hx'

/-- What is in the map has been reached, and what is not in the queue any more has been gone through. -/
structure Spreading (failed : String) (edges : List GraphEdge) (s : Spread) : Prop where
  once : (s.blockedBy.map (·.1)).Nodup
  reached : ∀ k ∈ s.blockedBy.map (·.1), TransGen (PassesOn edges (· ≠ failed)) failed k
  queued : ∀ q ∈ s.queue, q = failed ∨ q ∈ s.blockedBy.map (·.1)
  done : ∀ x, x = failed ∨ x ∈ s.blockedBy.map (·.1) → x ∉ s.queue → ∀ y, PassesOn edges (· ≠ failed) x y →
    y ∈ s.blockedBy.map (·.1)

/-- A round keeps it. -/
theorem Spreading.round {current : String} {queue : List String} (h : Spreading failed edges s) (hqueue : s.queue = current :: queue) :
    Spreading failed edges ((dependentsOf edges current).foldl (Spread.visit failed current) { s with queue }) := by
  obtain ⟨new, hq, hk, hnd, hnew, hall⟩ := @foldl_visit failed current (dependentsOf edges current) { s with queue }
  have hcurrent : ∀ k, TransGen (PassesOn edges (· ≠ failed)) current k → TransGen (PassesOn edges (· ≠ failed)) failed k := by
    intro k hk
    rcases h.queued current (hqueue ▸ List.mem_cons_self ..) with rfl | hmem
    · exact hk
    · exact (h.reached current hmem).trans hk
  refine ⟨?_, ?_, ?_, ?_⟩
  · rw [hk]
    exact List.nodup_append.mpr ⟨h.once, hnd, fun a ha b hb e => (hnew b hb).2.2 (e ▸ ha)⟩
  · rw [hk]
    intro k hmem
    rcases List.mem_append.mp hmem with hmem | hmem
    · exact h.reached k hmem
    · obtain ⟨hdep, hne, -⟩ := hnew k hmem
      exact hcurrent k (.single ⟨mem_dependentsOf.mp hdep, hne⟩)
  · rw [hq, hk]
    intro q hmem
    rcases List.mem_append.mp hmem with hmem | hmem
    · exact (h.queued q (hqueue ▸ List.mem_cons_of_mem _ hmem)).imp_right (List.mem_append_left _)
    · exact .inr (List.mem_append_right _ hmem)
  · rw [hq, hk]
    intro x hx hout y hxy
    by_cases e : x = current
    · subst e
      exact hall y (mem_dependentsOf.mpr hxy.1) hxy.2
    · have hold : x = failed ∨ x ∈ s.blockedBy.map (·.1) := by
        refine hx.imp_right fun hmem => (List.mem_append.mp hmem).resolve_right fun hmem => ?_
        exact hout (List.mem_append_right _ hmem)
      refine List.mem_append_left _ (h.done x hold (fun hmem => ?_) y hxy)
      rw [hqueue] at hmem
      exact hout (List.mem_append_left _ ((List.mem_cons.mp hmem).resolve_left e))

/-- The units that edges lead from. -/
def sources (edges : List GraphEdge) : List String := (edges.map (·.unitId)).dedup

theorem sources_length_le (edges : List GraphEdge) : (sources edges).length ≤ edges.length := by
  unfold sources
  simpa using (List.dedup_sublist (edges.map (·.unitId))).length_le

theorem mem_sources {a b : String} (h : Needs edges a b) : a ∈ sources edges :=
  List.mem_dedup.mpr (List.mem_map.mpr ⟨_, h, rfl⟩)

theorem Spreading.length_le (h : Spreading failed edges s) : s.blockedBy.length ≤ (sources edges).length := by
  have hsub : s.blockedBy.map (·.1) ⊆ sources edges := fun k hk => by
    obtain ⟨x, -, hx⟩ := TransGen.tail'_iff.mp (h.reached k hk)
    exact mem_sources hx.1
  simpa using (List.subperm_of_subset h.once hsub).length_le

/-- With a round for what is in the queue and for what may still come, the queue gets empty. -/
theorem Spreading.run {rounds : ℕ} (h : Spreading failed edges s)
    (hrounds : s.queue.length + ((sources edges).length - s.blockedBy.length) ≤ rounds) :
    Spreading failed edges (Spread.run failed edges rounds s) ∧ (Spread.run failed edges rounds s).queue = [] := by
  induction rounds generalizing s with
  | zero =>
    have hqueue : s.queue.length = 0 := by omega
    exact ⟨h, List.length_eq_zero_iff.mp hqueue⟩
  | succ rounds ih =>
    unfold Spread.run
    split
    · rename_i hqueue
      exact ⟨h, hqueue⟩
    · rename_i current queue hqueue
      have hnext := h.round hqueue
      refine ih hnext ?_
      obtain ⟨new, hq, hk, -⟩ := @foldl_visit failed current (dependentsOf edges current) { s with queue }
      have hlength := congrArg List.length hk
      have hle := hnext.length_le
      rw [List.length_append, List.length_map, List.length_map] at hlength
      rw [hq, List.length_append]
      rw [hqueue, List.length_cons] at hrounds
      dsimp only at hlength ⊢
      omega

end Spread

/-- **What is blocked in the end** when all levels are gone through. -/
theorem mem_transitiveBlocked (failed : String) (edges : List GraphEdge) (k : String) :
    k ∈ (transitiveBlocked failed edges).map (·.1) ↔ TransGen (PassesOn edges (· ≠ failed)) failed k := by
  have hstart : Spreading failed edges ⟨[failed], []⟩ := by
    refine ⟨List.nodup_nil, nofun, fun q hq => .inl (List.mem_singleton.mp hq), fun x hx hout => ?_⟩
    rcases hx with rfl | hmem
    · exact absurd (List.mem_singleton_self _) hout
    · exact nomatch hmem
  have hle := sources_length_le edges
  obtain ⟨hend, hempty⟩ := @Spreading.run edges failed _ (edges.length + 1) hstart (by simp; omega)
  refine mem_iff_blocks hend.reached (fun x hx y hxy => hend.done x hx ?_ y hxy) k
  rw [hempty]
  exact List.not_mem_nil

/-! ### One level after another -/

/-- The statuses, and the units that have been blocked. -/
structure Blocking where
  statusOf : String → ExecutionUnitStatus
  blocked : List String

/-- `dependentsToBlock` applied to the failed unit or to one that has been blocked; what it returns becomes `BLOCKED`. -/
def Blocking.apply (failed : String) (edges : List GraphEdge) (s : Blocking) (unitId : String) : Option Blocking :=
  if unitId = failed ∨ unitId ∈ s.blocked then
    match dependentsToBlock unitId (s.statusOf unitId) edges s.statusOf with
    | .error _ => none
    | .ok dependents =>
      some {
        statusOf := fun id => if (dependents.map (·.unitId)).contains id then .BLOCKED else s.statusOf id
        blocked := s.blocked ++ dependents.map (·.unitId) }
  else none

/-- An application that blocks something. -/
def Changes (failed : String) (edges : List GraphEdge) (s : Blocking) (unitId : String) (s' : Blocking) : Prop :=
  s.apply failed edges unitId = some s' ∧ s'.blocked ≠ s.blocked

/-- Applied to any of its units again it changes nothing. -/
def Settled (failed : String) (edges : List GraphEdge) (s : Blocking) : Prop :=
  ∀ unitId, unitId = failed ∨ unitId ∈ s.blocked → s.apply failed edges unitId = some s

section Process

variable {statusOf : String → ExecutionUnitStatus} {s s' : Blocking} {unitId : String}

/-- The unit may be blocked. -/
def Live (statusOf : String → ExecutionUnitStatus) (id : String) : Prop := (statusOf id).isTerminal = false

instance : DecidablePred (Live statusOf) := fun _ => inferInstanceAs (Decidable (_ = false))

/-- What holds however often one level has been gone through. -/
structure Blocked (failed : String) (edges : List GraphEdge) (statusOf : String → ExecutionUnitStatus) (s : Blocking) : Prop where
  status : ∀ id, s.statusOf id = if id ∈ s.blocked then .BLOCKED else statusOf id
  reached : ∀ k ∈ s.blocked, TransGen (PassesOn edges (Live statusOf)) failed k

/-- What an application does. -/
theorem apply_eq (hfailed : (statusOf failed).isTerminal = true) (hnot : statusOf failed ≠ .COMPLETED)
    (h : Blocked failed edges statusOf s) (hunit : unitId = failed ∨ unitId ∈ s.blocked) :
    s.apply failed edges unitId = some ⟨fun id =>
      if id ∈ (dependentsOf edges unitId).filter fun id => !(s.statusOf id).isTerminal then .BLOCKED else s.statusOf id,
      s.blocked ++ (dependentsOf edges unitId).filter fun id => !(s.statusOf id).isTerminal⟩ := by
  have hstatus : (s.statusOf unitId).isTerminal = true ∧ s.statusOf unitId ≠ .COMPLETED := by
    rw [h.status]
    split
    · exact ⟨rfl, nofun⟩
    · rename_i hout
      rw [hunit.resolve_right hout]
      exact ⟨hfailed, hnot⟩
  unfold Blocking.apply dependentsToBlock
  rw [if_pos hunit, if_neg (by simp [hstatus.1]), if_neg hstatus.2]
  simp [List.map_map, Function.comp_def]

/-- An application keeps it. -/
theorem Blocked.apply (hfailed : (statusOf failed).isTerminal = true) (hnot : statusOf failed ≠ .COMPLETED)
    (h : Blocked failed edges statusOf s) (hs : s.apply failed edges unitId = some s') : Blocked failed edges statusOf s' := by
  have hunit : unitId = failed ∨ unitId ∈ s.blocked := by
    by_contra hout
    rw [Blocking.apply, if_neg hout] at hs
    cases hs
  rw [apply_eq hfailed hnot h hunit, Option.some.injEq] at hs
  subst hs
  refine ⟨fun id => ?_, fun k hk => ?_⟩
  · dsimp only
    by_cases hnew : id ∈ (dependentsOf edges unitId).filter fun id => !(s.statusOf id).isTerminal
    · rw [if_pos hnew, if_pos (List.mem_append_right _ hnew)]
    · rw [if_neg hnew, h.status id]
      by_cases hold : id ∈ s.blocked
      · rw [if_pos hold, if_pos (List.mem_append_left _ hold)]
      · rw [if_neg hold, if_neg fun hmem => (List.mem_append.mp hmem).elim hold hnew]
  · rcases List.mem_append.mp hk with hk | hk
    · exact h.reached k hk
    · obtain ⟨hdep, hlive⟩ := List.mem_filter.mp hk
      rw [Bool.not_eq_true', h.status k] at hlive
      have hstep : PassesOn edges (Live statusOf) unitId k := by
        refine ⟨mem_dependentsOf.mp hdep, ?_⟩
        split at hlive
        · cases hlive
        · exact hlive
      rcases hunit with rfl | hunit
      · exact .single hstep
      · exact (h.reached unitId hunit).tail hstep

theorem blocked_of_reaches (hfailed : (statusOf failed).isTerminal = true) (hnot : statusOf failed ≠ .COMPLETED)
    (hrun : Reaches (Changes failed edges) ⟨statusOf, []⟩ s) : Blocked failed edges statusOf s := by
  refine hrun.inv ?_ fun u a u' h hs => h.apply hfailed hnot hs.1
  exact ⟨fun id => (if_neg List.not_mem_nil).symm, nofun⟩

/-- If nothing changes any more, all is blocked that can be reached. -/
theorem Blocked.closed (hfailed : (statusOf failed).isTerminal = true) (hnot : statusOf failed ≠ .COMPLETED)
    (h : Blocked failed edges statusOf s) (hsettled : Settled failed edges s) {x y : String} (hx : x = failed ∨ x ∈ s.blocked)
    (hxy : PassesOn edges (Live statusOf) x y) : y ∈ s.blocked := by
  have hsame := hsettled x hx
  rw [apply_eq hfailed hnot h hx, Option.some.injEq] at hsame
  have hnone : (dependentsOf edges x).filter (fun id => !(s.statusOf id).isTerminal) = [] := by
    simpa using congrArg Blocking.blocked hsame
  by_contra hout
  have hlive : s.statusOf y = statusOf y := by rw [h.status, if_neg hout]
  have hmem : y ∈ (dependentsOf edges x).filter fun id => !(s.statusOf id).isTerminal := by
    rw [List.mem_filter, hlive, Bool.not_eq_true']
    exact ⟨mem_dependentsOf.mpr hxy.1, hxy.2⟩
  rw [hnone] at hmem
  cases hmem

/-- If it is not so, something can be blocked. -/
theorem Blocked.progress (hfailed : (statusOf failed).isTerminal = true) (hnot : statusOf failed ≠ .COMPLETED)
    (h : Blocked failed edges statusOf s) (hsettled : ¬ Settled failed edges s) : ∃ unitId s', Changes failed edges s unitId s' := by
  unfold Settled at hsettled
  push Not at hsettled
  obtain ⟨unitId, hunit, hdiff⟩ := hsettled
  refine ⟨unitId, _, apply_eq hfailed hnot h hunit, fun hsame => hdiff ?_⟩
  rw [List.append_right_eq_self] at hsame
  rw [apply_eq hfailed hnot h hunit, hsame]
  simp

end Process

/-- An application blocks dependents that are not over, and nothing else. -/
theorem apply_cases {s s' : Blocking} {unitId : String} (hs : s.apply failed edges unitId = some s') :
    ∃ ds : List String, (∀ d ∈ ds, d ∈ dependentsOf edges unitId ∧ Live s.statusOf d) ∧
      s' = ⟨fun id => if id ∈ ds then .BLOCKED else s.statusOf id, s.blocked ++ ds⟩ := by
  unfold Blocking.apply at hs
  split at hs
  · unfold dependentsToBlock at hs
    split at hs
    · cases hs
    rename_i dependents hok
    cases hs
    refine ⟨dependents.map (·.unitId), fun d hd => ?_, by simp⟩
    split at hok
    · cases hok
    split at hok
    · cases hok
      cases hd
    · cases hok
      obtain ⟨x, hx, rfl⟩ := List.mem_map.mp hd
      obtain ⟨y, hy, rfl⟩ := List.mem_map.mp hx
      obtain ⟨hdep, hlive⟩ := List.mem_filter.mp hy
      exact ⟨hdep, by simpa [Live] using hlive⟩
  · cases hs

/-- Every application that blocks something leaves fewer units to block. -/
theorem wellFounded_changes (failed : String) (edges : List GraphEdge) :
    WellFounded fun s' s => ∃ unitId, Changes failed edges s unitId s' := by
  refine Subrelation.wf (fun {s' s} => ?_)
    (measure fun s : Blocking => ((sources edges).filter fun id => !(s.statusOf id).isTerminal).length).wf
  rintro ⟨unitId, hs, hdiff⟩
  obtain ⟨ds, hds, rfl⟩ := apply_cases hs
  obtain ⟨d, hd⟩ := List.exists_mem_of_ne_nil ds fun e => hdiff (by rw [e, List.append_nil])
  obtain ⟨hdep, hlive⟩ := hds d hd
  have hfewer : ((sources edges).filter fun id => !(if id ∈ ds then ExecutionUnitStatus.BLOCKED else s.statusOf id).isTerminal) =
      ((sources edges).filter fun id => !(s.statusOf id).isTerminal).filter fun id => id ∉ ds := by
    rw [List.filter_filter]
    refine List.filter_congr fun id _ => ?_
    by_cases hmem : id ∈ ds
    · simp [hmem, ExecutionUnitStatus.isTerminal]
    · simp [hmem]
  change List.length _ < List.length _
  rw [hfewer, List.length_filter_lt_length_iff_exists]
  refine ⟨d, List.mem_filter.mpr ⟨mem_sources (mem_dependentsOf.mp hdep), ?_⟩, by simpa using hd⟩
  rw [hlive]
  rfl

/-- **Repeated application comes to the closure**: it ends, and then it has blocked the units that the failed unit reaches
through dependents that were not over before, which are the ones that `transitiveBlocked` returns if none of these was. -/
theorem blocking_is_closure (failed : String) (edges : List GraphEdge) (statusOf : String → ExecutionUnitStatus)
    (hfailed : (statusOf failed).isTerminal = true) (hnot : statusOf failed ≠ .COMPLETED) :
    (WellFounded fun s' s => ∃ unitId, Changes failed edges s unitId s') ∧
      ∀ s, Reaches (Changes failed edges) ⟨statusOf, []⟩ s →
        (∀ k ∈ s.blocked, k ∈ (transitiveBlocked failed edges).map (·.1)) ∧
          (¬ Settled failed edges s → ∃ unitId s', Changes failed edges s unitId s') ∧
          (Settled failed edges s → (∀ k, k ∈ s.blocked ↔ TransGen (PassesOn edges (Live statusOf)) failed k) ∧
            ((∀ k ∈ (transitiveBlocked failed edges).map (·.1), Live statusOf k) →
              ∀ k, k ∈ s.blocked ↔ k ∈ (transitiveBlocked failed edges).map (·.1))) := by
  refine ⟨wellFounded_changes failed edges, fun s hrun => ?_⟩
  have h := blocked_of_reaches hfailed hnot hrun
  have hsub : ∀ k, TransGen (PassesOn edges (Live statusOf)) failed k → k ∈ (transitiveBlocked failed edges).map (·.1) := by
    refine fun k hk => (mem_transitiveBlocked failed edges k).mpr (hk.lift id fun x y hxy => ⟨hxy.1, fun e => ?_⟩)
    have hlive : (statusOf y).isTerminal = false := hxy.2
    rw [show y = failed from e, hfailed] at hlive
    cases hlive
  refine ⟨fun k hk => hsub k (h.reached k hk), h.progress hfailed hnot, fun hsettled => ?_⟩
  have hiff := mem_iff_blocks h.reached fun x hx y => h.closed hfailed hnot hsettled hx
  refine ⟨hiff, fun hlive k => ⟨fun hk => hsub k (h.reached k hk), fun hk => ?_⟩⟩
  rw [hiff]
  have hstep {x y : String} (hx : TransGen (PassesOn edges (· ≠ failed)) failed y) (hxy : PassesOn edges (· ≠ failed) x y) :
      PassesOn edges (Live statusOf) x y := ⟨hxy.1, hlive y ((mem_transitiveBlocked failed edges y).mpr hx)⟩
  have hreached := (mem_transitiveBlocked failed edges k).mp hk
  clear hk
  induction hreached with
  | single hxy => exact .single (hstep (.single hxy) hxy)
  | tail hx hxy ih => exact ih.tail (hstep (hx.tail hxy) hxy)

/-- A chain of three units, the first of which has failed. -/
theorem blocking_is_closure_chain :
    (WellFounded fun s' s => ∃ unitId, Changes "a" [⟨"b", "a"⟩, ⟨"c", "b"⟩] s unitId s') ∧
      ∀ s, Reaches (Changes "a" [⟨"b", "a"⟩, ⟨"c", "b"⟩]) ⟨fun id => if id = "a" then .FAILED else .PLANNED, []⟩ s →
        Settled "a" [⟨"b", "a"⟩, ⟨"c", "b"⟩] s → ∀ k, k ∈ s.blocked ↔
          k ∈ (transitiveBlocked "a" [⟨"b", "a"⟩, ⟨"c", "b"⟩]).map (·.1) := by
  obtain ⟨hends, hclosure⟩ := blocking_is_closure "a" [⟨"b", "a"⟩, ⟨"c", "b"⟩] (fun id => if id = "a" then .FAILED else .PLANNED)
    (by decide) (by decide)
  exact ⟨hends, fun s hrun hsettled => ((hclosure s hrun).2.2 hsettled).2 (by decide)⟩

/-- A dependent that has been cancelled before is left alone, and so is what depends on it. -/
theorem cancelled_not_blocked :
    ¬ ∀ (failed : String) (edges : List GraphEdge) (statusOf : String → ExecutionUnitStatus), Acyclic (Needs edges) →
      statusOf failed = .FAILED → ∀ s, Reaches (Changes failed edges) ⟨statusOf, []⟩ s → Settled failed edges s →
        ∀ k, k ∈ s.blocked ↔ k ∈ (transitiveBlocked failed edges).map (·.1) := by
  intro h
  have hacyclic : Acyclic (Needs [⟨"b", "a"⟩]) := by
    have hlisting : Listing (Needs [⟨"b", "a"⟩]) ["a", "b"] := by
      refine .snoc (l := ["a"]) (.snoc (l := []) .nil fun x hx => ?_) fun x hx => ?_
      · simp [Needs] at hx
      · simpa [Needs] using hx
    refine hlisting.acyclic fun a b hab => ?_
    obtain ⟨rfl, -⟩ : a = "b" ∧ b = "a" := by simpa [Needs] using hab
    decide
  have hsettled : Settled "a" [⟨"b", "a"⟩] ⟨fun id => if id = "a" then .FAILED else .CANCELLED, []⟩ := by
    rintro unitId (rfl | hmem)
    · have hdependents : dependentsOf [⟨"b", "a"⟩] "a" = ["b"] := by decide
      simp [Blocking.apply, dependentsToBlock, hdependents, ExecutionUnitStatus.isTerminal]
    · cases hmem
  have hiff := h "a" [⟨"b", "a"⟩] (fun id => if id = "a" then .FAILED else .CANCELLED) hacyclic rfl _ (.refl _) hsettled "b"
  exact absurd (hiff.mpr (by decide)) List.not_mem_nil

end WebAudit.Execution
