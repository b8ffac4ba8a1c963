import WebAudit.Planning.Expansion
import WebAudit.Planning.Schedule

/-!
# From the units to the stored plan

`resolvePlan` in `services/planning/resolver.ts` from the classes of the domains to the rows: a unit that waits for a
skipped one is skipped too, pass after pass until one changes nothing. What this comes to is `skipLoop_closure`: a unit is
skipped if its own `skipWhen` says so or if it waits, over any number of edges, for a unit of which it does. So what is
left of the graph is closed under predecessors. A plan that is stored is sound (`resolveGraph_sound`).

## The model

* `isAuthorized` with the destination is a parameter: the id of the grant, or the reason for the refusal.
* The instant at which a grant expires is read by its id; there may be no such row.
* A row of a unit has the columns that are computed here.
-/

namespace WebAudit.Planning

open Relation WebAudit.Lib WebAudit.Scans

variable {α : Type}

/-! ### Units that wait for a skipped one -/

/-- Waits for one of the ids. -/
def isBlocked (edges : List GraphEdge) (skippedIds : List String) (e : Expanded α) : Bool :=
  e.skipped.isNone && (edges.find? fun x => decide (x.unitId = e.id) && skippedIds.contains x.dependsOnUnitId).isSome

/-- One pass, and whether it has changed anything. -/
def skipPass (edges : List GraphEdge) (es : List (Expanded α)) : List (Expanded α) × Bool :=
  let skippedIds := (es.filter (·.skipped.isSome)).map (·.id)
  (es.map fun e => if isBlocked edges skippedIds e then { e with skipped := some "PREDECESSOR_SKIPPED" } else e,
    es.any (isBlocked edges skippedIds))

/-- The passes, as long as one changes anything. -/
def skipLoop (edges : List GraphEdge) : ℕ → List (Expanded α) → Option (List (Expanded α))
  | 0, _ => none
  | rounds + 1, es =>
    let (es', changed) := skipPass edges es
    if changed then skipLoop edges rounds es' else some es'

/-- `a` depends on `b`, which is a unit. -/
def Waits (edges : List GraphEdge) (es : List (Expanded α)) (a b : String) : Prop := Needs edges a b ∧ b ∈ es.map (·.id)

/-- Waits, over any number of edges, for a unit that has been skipped from the start. -/
def WaitsForSkipped (edges : List GraphEdge) (es : List (Expanded α)) (id : String) : Prop :=
  ∃ f ∈ es, f.skipped.isSome ∧ TransGen (Waits edges es) id f.id

/-- A unit and what the passes have made of it so far. -/
structure Marked (edges : List GraphEdge) (es : List (Expanded α)) (e e' : Expanded α) : Prop where
  same : e' = { e with skipped := e'.skipped }
  kept : e.skipped.isSome → e'.skipped = e.skipped
  waits : e.skipped = none → e'.skipped.isSome → WaitsForSkipped edges es e.id

section Passes

variable {edges : List GraphEdge} {es now : List (Expanded α)}

theorem Marked.id_eq {e e' : Expanded α} (h : Marked edges es e e') : e'.id = e.id := by rw [h.same]

theorem ids_eq (h : List.Forall₂ (Marked edges es) es now) : now.map (·.id) = es.map (·.id) := by
  have hids : ∀ {l l' : List (Expanded α)}, List.Forall₂ (Marked edges es) l l' → l'.map (·.id) = l.map (·.id) := by
    intro l l' h
    induction h with
    | nil => rfl
    | cons hm _ ih => rw [List.map_cons, List.map_cons, hm.id_eq, ih]
  exact hids h

/-- The unit that an entry comes from. -/
theorem exists_source (h : List.Forall₂ (Marked edges es) es now) {e' : Expanded α} (he' : e' ∈ now) :
    ∃ e ∈ es, Marked edges es e e' := by
  obtain ⟨i, hi, rfl⟩ := List.getElem_of_mem he'
  have hlength := h.length_eq
  exact ⟨es[i], List.getElem_mem _, h.get (hlength ▸ hi) hi⟩

theorem isBlocked_iff {skippedIds : List String} {e : Expanded α} :
    isBlocked edges skippedIds e ↔ e.skipped = none ∧ ∃ b ∈ skippedIds, Needs edges e.id b := by
  simp only [isBlocked, Bool.and_eq_true, Option.isNone_iff_eq_none, List.find?_isSome, decide_eq_true_eq,
    List.contains_iff_mem, Needs]
  refine and_congr_right fun _ => ⟨?_, ?_⟩
  · rintro ⟨⟨a, b⟩, hx, rfl, hb⟩
    exact ⟨b, hb, hx⟩
  · rintro ⟨b, hb, hx⟩
    exact ⟨_, hx, rfl, hb⟩

/-- The ids of the skipped units. -/
theorem mem_skippedIds {id : String} :
    id ∈ (now.filter (·.skipped.isSome)).map (·.id) ↔ ∃ e ∈ now, e.skipped.isSome ∧ e.id = id := by
  simp [and_assoc]

/-- Who waits for a skipped unit waits for one that has been skipped from the start. -/
theorem waits_of_blocked (h : List.Forall₂ (Marked edges es) es now) {e : Expanded α}
    (hb : isBlocked edges ((now.filter (·.skipped.isSome)).map (·.id)) e) : WaitsForSkipped edges es e.id := by
  obtain ⟨-, b, hmem, hdep⟩ := isBlocked_iff.mp hb
  obtain ⟨p', hp', hskipped, rfl⟩ := mem_skippedIds.mp hmem
  obtain ⟨p, hp, hmarked⟩ := exists_source h hp'
  have hwaits : Waits edges es e.id p.id := ⟨hmarked.id_eq ▸ hdep, List.mem_map_of_mem hp⟩
  cases hstart : p.skipped with
  | some reason => exact ⟨p, hp, by rw [hstart]; rfl, .single hwaits⟩
  | none =>
    obtain ⟨f, hf, hfired, hpath⟩ := hmarked.waits hstart hskipped
    exact ⟨f, hf, hfired, .head hwaits hpath⟩

/-- A pass keeps it. -/
theorem marked_skipPass (h : List.Forall₂ (Marked edges es) es now) : List.Forall₂ (Marked edges es) es (skipPass edges now).1 := by
  have hwaits : ∀ e, isBlocked edges ((now.filter (·.skipped.isSome)).map (·.id)) e → WaitsForSkipped edges es e.id :=
    fun e hb => waits_of_blocked h hb
  unfold skipPass
  rw [List.forall₂_map_right_iff]
  refine h.imp fun e e' hm => ?_
  split
  · rename_i hb
    have hnone := (isBlocked_iff.mp hb).1
    refine ⟨by rw [hm.same], fun hsome => ?_, fun _ _ => hm.id_eq ▸ hwaits e' hb⟩
    rw [← hm.kept hsome, hnone] at hsome
    exact nomatch hsome
  · exact hm

/-- A pass that changes something leaves fewer units. -/
theorem countP_skipPass (hchanged : (skipPass edges now).2 = true) :
    (skipPass edges now).1.countP (·.skipped.isNone) < now.countP (·.skipped.isNone) := by
  obtain ⟨e, he, hb⟩ := List.any_eq_true.mp hchanged
  obtain ⟨before, after, hsplit⟩ := List.append_of_mem he
  have hless : ∀ (skippedIds : List String) (l : List (Expanded α)),
      (l.map fun e => if isBlocked edges skippedIds e then { e with skipped := some "PREDECESSOR_SKIPPED" } else e).countP
        (·.skipped.isNone) ≤ l.countP (·.skipped.isNone) := by
    intro skippedIds l
    rw [List.countP_map]
    refine List.countP_mono_left fun x _ hx => ?_
    rw [Function.comp_apply] at hx
    split at hx
    · exact nomatch hx
    · exact hx
  have hnone : e.skipped.isNone = true := by rw [(isBlocked_iff.mp hb).1]; rfl
  have hbefore := hless ((now.filter (·.skipped.isSome)).map (·.id)) before
  have hafter := hless ((now.filter (·.skipped.isSome)).map (·.id)) after
  unfold skipPass
  dsimp only
  generalize (now.filter (·.skipped.isSome)).map (·.id) = skippedIds at *
  rw [hsplit, List.map_append, List.countP_append, List.countP_append, List.map_cons, List.countP_cons, List.countP_cons, hnone,
    if_pos hb]
  simp only [Option.isNone_some, Bool.false_eq_true, if_false, if_true]
  omega

/-- The loop ends with a pass that changes nothing. -/
theorem skipLoop_ends (h : List.Forall₂ (Marked edges es) es now) {rounds : ℕ} (hrounds : now.countP (·.skipped.isNone) < rounds) :
    ∃ result, skipLoop edges rounds now = some result ∧ List.Forall₂ (Marked edges es) es result ∧
      ∀ e ∈ result, isBlocked edges ((result.filter (·.skipped.isSome)).map (·.id)) e = false := by
  induction rounds generalizing now with
  | zero => exact absurd hrounds (Nat.not_lt_zero _)
  | succ rounds ih =>
    unfold skipLoop
    by_cases hchanged : (skipPass edges now).2 = true
    · simp only [hchanged, if_true]
      exact ih (marked_skipPass h) (lt_of_lt_of_le (countP_skipPass hchanged) (Nat.lt_succ_iff.mp hrounds))
    · have hquiet : ∀ e ∈ now, isBlocked edges ((now.filter (·.skipped.isSome)).map (·.id)) e = false := by
        simpa [skipPass] using hchanged
      have hsame : (skipPass edges now).1 = now := by
        unfold skipPass
        refine (List.map_congr_left fun e he => ?_).trans (List.map_id now)
        rw [if_neg (by simp [hquiet e he]), id]
      simp only [hchanged, hsame]
      exact ⟨now, rfl, h, hquiet⟩

/-- Nothing that waits for a skipped unit is left. -/
theorem skipped_of_waits (hquiet : ∀ e ∈ now, isBlocked edges ((now.filter (·.skipped.isSome)).map (·.id)) e = false) {e : Expanded α}
    (he : e ∈ now) {p : Expanded α} (hp : p ∈ now) (hdep : Needs edges e.id p.id) (hskipped : p.skipped.isSome) :
    e.skipped.isSome := by
  by_contra hlive
  have hblocked : isBlocked edges ((now.filter (·.skipped.isSome)).map (·.id)) e :=
    isBlocked_iff.mpr ⟨by simpa using hlive, p.id, mem_skippedIds.mpr ⟨p, hp, hskipped, rfl⟩, hdep⟩
  rw [hquiet e he] at hblocked
  exact nomatch hblocked

end Passes

/-! ### What the passes come to -/

/-- Its own `skipWhen` says so. -/
def Fires (perDomain : ModuleType → α) (e : Expanded α) : Prop := (ownSkip perDomain e.domain e.template).isSome

/-- The order of the edges does not matter to a pass. -/
theorem skipPass_perm {edges edges' : List GraphEdge} (h : edges'.Perm edges) (es : List (Expanded α)) :
    skipPass edges' es = skipPass edges es := by
  have hblocked : ∀ skippedIds, isBlocked edges' skippedIds = isBlocked (α := α) edges skippedIds := by
    intro skippedIds
    funext e
    rw [Bool.eq_iff_iff, isBlocked_iff, isBlocked_iff]
    simp only [Needs, h.mem_iff]
  simp only [skipPass, hblocked]

theorem skipLoop_perm {edges edges' : List GraphEdge} (h : edges'.Perm edges) (rounds : ℕ) (es : List (Expanded α)) :
    skipLoop edges' rounds es = skipLoop edges rounds es := by
  induction rounds generalizing es with
  | zero => rfl
  | succ rounds ih => simp only [skipLoop, skipPass_perm h, ih]

/-- More passes than are needed come to the same. -/
theorem skipLoop_more {edges : List GraphEdge} {rounds rounds' : ℕ} {es result : List (Expanded α)}
    (h : skipLoop edges rounds es = some result) (hle : rounds ≤ rounds') : skipLoop edges rounds' es = some result := by
  induction rounds generalizing rounds' es with
  | zero => exact nomatch h
  | succ rounds ih =>
    obtain ⟨rounds', rfl⟩ := Nat.exists_eq_add_of_le' (Nat.one_le_of_lt hle)
    unfold skipLoop at h ⊢
    split
    rename_i es' changed hpass
    simp only [hpass] at h
    cases changed with
    | true => exact ih h (Nat.le_of_succ_le_succ hle)
    | false => exact h

/-- Where the loop ends, a unit is skipped if one of those it waits for has been from the start. -/
theorem isSome_iff_waits {edges : List GraphEdge} {es result : List (Expanded α)} (h : List.Forall₂ (Marked edges es) es result)
    (hquiet : ∀ e ∈ result, isBlocked edges ((result.filter (·.skipped.isSome)).map (·.id)) e = false) {e e' : Expanded α}
    (he' : e' ∈ result) (hm : Marked edges es e e') :
    e'.skipped.isSome ↔ e.skipped.isSome ∨ WaitsForSkipped edges es e.id := by
  constructor
  · intro hskipped
    by_cases hstart : e.skipped = none
    · exact .inr (hm.waits hstart hskipped)
    · exact .inl (Option.isSome_iff_ne_none.mpr hstart)
  · rintro (hstart | ⟨f, hf, hfired, hpath⟩)
    · rw [hm.kept hstart]
      exact hstart
    · -- over the path, from its end
      have hall : ∀ {a : String}, TransGen (Waits edges es) a f.id → ∀ u ∈ result, u.id = a → u.skipped.isSome := by
        intro a hpath
        induction hpath using TransGen.head_induction_on with
        | single hwaits =>
          intro u hu hid
          obtain ⟨i, hi, rfl⟩ := List.getElem_of_mem hf
          have hi' : i < result.length := h.length_eq ▸ hi
          have hmarked : Marked edges es es[i] result[i] := h.get hi hi'
          refine skipped_of_waits hquiet hu (List.getElem_mem hi') ?_ ?_
          · rw [hid, hmarked.id_eq]
            exact hwaits.1
          · rw [hmarked.kept hfired]
            exact hfired
        | head hwaits _ ih =>
          intro u hu hid
          obtain ⟨p, hp, hpid⟩ := List.mem_map.mp ((ids_eq h) ▸ hwaits.2)
          refine skipped_of_waits hquiet hu hp ?_ (ih p hp hpid)
          rw [hid, hpid]
          exact hwaits.1
      exact hall hpath e' he' hm.id_eq

/-- The loop has a result. -/
theorem skipLoop_result (edges : List GraphEdge) (es : List (Expanded α)) :
    ∃ result, skipLoop edges (es.length + 1) es = some result ∧ List.Forall₂ (Marked edges es) es result ∧
      ∀ e ∈ result, isBlocked edges ((result.filter (·.skipped.isSome)).map (·.id)) e = false := by
  refine skipLoop_ends (List.forall₂_same.mpr fun e _ => ⟨rfl, fun _ => rfl, fun hnone hsome => ?_⟩) ?_
  · rw [hnone] at hsome
    exact nomatch hsome
  · exact Nat.lt_succ_of_le List.countP_le_length

/-- **What is skipped, and what is left.** -/
theorem skipLoop_closure (perDomain : ModuleType → α) (edges : List GraphEdge) (es : List (Expanded α))
    (hown : ∀ e ∈ es, e.skipped = ownSkip perDomain e.domain e.template) :
    ∃ result,
      (∀ edges', edges'.Perm edges → ∀ rounds, es.length < rounds → skipLoop edges' rounds es = some result) ∧
      List.Forall₂ (fun e e' => e' = { e with skipped := e'.skipped } ∧
        (e'.skipped.isSome ↔ Fires perDomain e ∨ ∃ f ∈ es, Fires perDomain f ∧ TransGen (Waits edges es) e.id f.id)) es result ∧
      ∀ e ∈ result, e.skipped = none → ∀ p ∈ result, Needs edges e.id p.id → p.skipped = none := by
  obtain ⟨result, hresult, hmarked, hquiet⟩ := skipLoop_result edges es
  refine ⟨result, fun edges' hperm rounds hrounds => ?_, ?_, fun e he hlive p hp hdep => ?_⟩
  · rw [skipLoop_perm hperm]
    exact skipLoop_more hresult hrounds
  · have hfires : ∀ e ∈ es, (e.skipped.isSome ↔ Fires perDomain e) := fun e he => by rw [hown e he, Fires]
    refine List.forall₂_iff_get.mpr ⟨hmarked.length_eq, fun i hi hi' => ?_⟩
    have hm := hmarked.get hi hi'
    refine ⟨hm.same, ?_⟩
    rw [isSome_iff_waits hmarked hquiet (List.get_mem _ _) hm, hfires _ (List.get_mem _ _)]
    exact or_congr_right (exists_congr fun f => and_congr_right fun hf => and_congr_left fun _ => hfires f hf)
  · by_contra hp'
    have hskipped := skipped_of_waits hquiet he hp hdep (Option.isSome_iff_ne_none.mpr hp')
    rw [hlive] at hskipped
    exact nomatch hskipped

/-- A crawl that is skipped, and an audit that waits for it. -/
def skippedCrawl : List (Expanded Unit) :=
  [⟨"crawl", ⟨"crawl", "crawler", .CRAWLER, 60000, 0, 1, none, 0, none, some fun _ => some "no pages"⟩, .SEO, some "no pages"⟩,
    ⟨"audit", ⟨"audit", "auditor", .CRAWLER, 60000, 0, 1, none, 0, some ["crawl"], none⟩, .SEO, none⟩]

theorem skipLoop_closure_crawl :
    ∃ result,
      (∀ edges', edges'.Perm [⟨"audit", "crawl"⟩] → ∀ rounds, 2 < rounds → skipLoop edges' rounds skippedCrawl = some result) ∧
      List.Forall₂ (fun e e' => e' = { e with skipped := e'.skipped } ∧
        (e'.skipped.isSome ↔ Fires (fun _ => ()) e ∨
          ∃ f ∈ skippedCrawl, Fires (fun _ => ()) f ∧ TransGen (Waits [⟨"audit", "crawl"⟩] skippedCrawl) e.id f.id))
        skippedCrawl result ∧
      ∀ e ∈ result, e.skipped = none → ∀ p ∈ result, Needs [⟨"audit", "crawl"⟩] e.id p.id → p.skipped = none :=
  skipLoop_closure (fun _ => ()) [⟨"audit", "crawl"⟩] skippedCrawl (by decide)

/-! ### The plan that is stored -/

inductive PlannedStatus where
  | PLANNED
  | SKIPPED
  deriving DecidableEq

/-- The row of a unit. -/
structure PlannedUnit where
  id : String
  key : String
  executionUnitClass : ExecutionUnitClass
  engineId : String
  status : PlannedStatus
  skippedReason : Option String
  targetAuthorizationId : Option String
  priority : ℤ
  timeoutPolicyMs : ℤ
  maxAttempts : ℤ
  requiresSafetyCheckpoint : Bool

structure ResolvedPlan where
  deadlineMs : ℤ
  units : List PlannedUnit
  edges : List GraphEdge

def deadlineRefusalText : DeadlineRefusal → String
  | .PLAN_DEADLINE_EXCEEDS_CEILING => "PLAN_DEADLINE_EXCEEDS_CEILING"
  | .GRANT_EXPIRES_BEFORE_DEADLINE => "GRANT_EXPIRES_BEFORE_DEADLINE"

def graphErrorText : PlanGraphErrorCode → String
  | .CYCLE => "cyclic dependency graph"
  | .EMPTY_UNIT_ID => "INVALID_GRAPH:EMPTY_UNIT_ID"
  | .DUPLICATE_UNIT => "INVALID_GRAPH:DUPLICATE_UNIT"
  | .UNKNOWN_CLASS => "INVALID_GRAPH:UNKNOWN_CLASS"
  | .DANGLING_EDGE => "INVALID_GRAPH:DANGLING_EDGE"
  | .SELF_DEPENDENCY => "INVALID_GRAPH:SELF_DEPENDENCY"
  | .DUPLICATE_EDGE => "INVALID_GRAPH:DUPLICATE_EDGE"

/-- What an error outside of the plan's own refusals is recorded as. -/
def internalErrorText : PlanningError → String
  | .deadline _ => "INTERNAL_ERROR:deadline"
  | _ => "INTERNAL_ERROR"

def Expanded.graphUnit (e : Expanded α) : GraphUnit := ⟨e.id, e.template.executionUnitClass⟩

def Expanded.deadlineUnit (e : Expanded α) : DeadlineUnit :=
  { e.graphUnit with
    timeoutPolicyMs := e.template.timeoutPolicyMs
    hardStopMarginMs := e.template.hardStopMarginMs
    maxAttempts := e.template.maxAttempts }

/-- The grant of a unit. -/
def grantOf (grantByClass : List (ExecutionUnitClass × String)) (e : Expanded α) : Option String :=
  if isPassiveClass e.template.executionUnitClass then none else grantByClass.lookup e.template.executionUnitClass

def plannedUnit (grantByClass : List (ExecutionUnitClass × String)) (e : Expanded α) : PlannedUnit where
  id := e.id
  key := e.template.key
  executionUnitClass := e.template.executionUnitClass
  engineId := e.template.engineId
  status := if e.skipped.isNone then .PLANNED else .SKIPPED
  skippedReason := e.skipped
  targetAuthorizationId := grantOf grantByClass e
  priority := e.template.priority
  timeoutPolicyMs := e.template.timeoutPolicyMs
  maxAttempts := e.template.maxAttempts
  requiresSafetyCheckpoint := !isPassiveClass e.template.executionUnitClass && decide (e.template.executionUnitClass ≠ .TELEMETRY)

section Resolve

variable (uuid : ℕ → String) (registry : EngineRegistry α) (domains : List ModuleType)
  (classMap : ModuleType → List ExecutionUnitClass) (perDomain : ModuleType → α)
  (isAuthorized : ExecutionUnitClass → Except String String) (expiresAt : String → Option (Option ℤ)) (now : Option ℤ)
  (constants : PlanDeadlineConstants)

/-- A grant for every class that needs one. -/
def authorizeClasses : Except String (List (ExecutionUnitClass × String)) :=
  ((sortClasses (domains.flatMap classMap).eraseDups).filter fun cls => !isPassiveClass cls).mapM fun cls =>
    match isAuthorized cls with
    | .error reason => .error (reason ++ ":" ++ classText cls)
    | .ok grantId => .ok (cls, grantId)

/-- The deadline of the units that are left. -/
def deadlineOf (grantByClass : List (ExecutionUnitClass × String)) (es : List (Expanded α)) (edges : List GraphEdge) :
    Except String ℤ := do
  let live := es.filter (·.skipped.isNone)
  let liveIds := live.map (·.id)
  let grantIds := (live.filterMap fun e => grantByClass.lookup e.template.executionUnitClass).eraseDups
  let grants ← grantIds.mapM fun id =>
    match expiresAt id with
    | none => .error "GRANT_NOT_FOUND"
    | some expiresAt => .ok (⟨id, expiresAt⟩ : GrantRef)
  let liveEdges := edges.filter fun e => liveIds.contains e.unitId && liveIds.contains e.dependsOnUnitId
  match computePlanDeadline (live.map Expanded.deadlineUnit) liveEdges grants now constants with
  | .error e => .error (internalErrorText e)
  | .ok (.refused reason) => .error (deadlineRefusalText reason)
  | .ok (.deadline deadlineMs _) => .ok deadlineMs

/-- Steps 2 to 6. -/
def resolveGraph : Except String ResolvedPlan := do
  match domains.find? fun d => (classMap d).isEmpty with
  | some d => .error ("INVALID_CONFIGURATION: domain " ++ domainText d ++ " has no execution class")
  | none =>
    let grantByClass ← authorizeClasses domains classMap isAuthorized
    let (expanded, edges) ← expand uuid registry domains classMap perDomain
    match skipLoop edges (expanded.length + 1) expanded with
    | none => .error "INTERNAL_ERROR" -- there are passes enough
    | some es =>
      match topologicalOrder (es.map Expanded.graphUnit) edges with
      | .error e => .error (graphErrorText e.code)
      | .ok _ =>
        let deadlineMs ← deadlineOf expiresAt now constants grantByClass es edges
        pure ⟨deadlineMs, es.map (plannedUnit grantByClass), edges⟩

end Resolve

/-! ### What a stored plan promises -/

section Stored

variable {uuid : ℕ → String} {registry : EngineRegistry α} {domains : List ModuleType}
  {classMap : ModuleType → List ExecutionUnitClass} {perDomain : ModuleType → α}
  {isAuthorized : ExecutionUnitClass → Except String String} {expiresAt : String → Option (Option ℤ)} {now : Option ℤ}
  {constants : PlanDeadlineConstants} {plan : ResolvedPlan} {grantByClass : List (ExecutionUnitClass × String)} {deadlineMs : ℤ}

theorem plannedUnit_status {e : Expanded α} : (plannedUnit grantByClass e).status = .PLANNED ↔ e.skipped = none := by
  cases hs : e.skipped <;> simp [plannedUnit, hs]

/-- The steps that a stored plan comes from. -/
theorem resolveGraph_ok (h : resolveGraph uuid registry domains classMap perDomain isAuthorized expiresAt now constants = .ok plan) :
    ∃ grantByClass expanded result, authorizeClasses domains classMap isAuthorized = .ok grantByClass ∧
      expand uuid registry domains classMap perDomain = .ok (expanded, plan.edges) ∧
      List.Forall₂ (Marked plan.edges expanded) expanded result ∧
      (∀ e ∈ result, isBlocked plan.edges ((result.filter (·.skipped.isSome)).map (·.id)) e = false) ∧
      (∃ order, topologicalOrder (result.map Expanded.graphUnit) plan.edges = .ok order) ∧
      deadlineOf expiresAt now constants grantByClass result plan.edges = .ok plan.deadlineMs ∧
      plan.units = result.map (plannedUnit grantByClass) := by
  unfold resolveGraph at h
  split at h
  · exact nomatch h
  obtain ⟨grantByClass, hgrants, h⟩ := bind_ok_iff.mp h
  obtain ⟨⟨expanded, edges⟩, hexpand, h⟩ := bind_ok_iff.mp h
  obtain ⟨result, hresult, hmarked, hquiet⟩ := skipLoop_result edges expanded
  simp only [hresult] at h
  split at h
  · exact nomatch h
  rename_i order horder
  obtain ⟨deadlineMs, hdeadline, h⟩ := bind_ok_iff.mp h
  cases h
  exact ⟨grantByClass, expanded, result, hgrants, hexpand, hmarked, hquiet, ⟨order, horder⟩, hdeadline, rfl⟩

/-- A class of the plan that needs a grant has the one it was allowed with. -/
theorem lookup_of_authorizeClasses (h : authorizeClasses domains classMap isAuthorized = .ok grantByClass)
    {cls : ExecutionUnitClass} (hcls : cls ∈ domains.flatMap classMap) (hactive : isPassiveClass cls = false) :
    ∃ grantId, grantByClass.lookup cls = some grantId ∧ isAuthorized cls = .ok grantId := by
  have hmem : cls ∈ (sortClasses (domains.flatMap classMap).eraseDups).filter fun c => !isPassiveClass c := by
    simpa [sortClasses, hactive] using hcls
  unfold authorizeClasses at h
  generalize (sortClasses (domains.flatMap classMap).eraseDups).filter (fun c => !isPassiveClass c) = classes at h hmem
  induction classes generalizing grantByClass with
  | nil => cases hmem
  | cons c cs ih =>
    obtain ⟨y, ys, hy, hys, rfl⟩ := mapM_cons_ok_iff.mp h
    cases hc : isAuthorized c with
    | error reason =>
      rw [hc] at hy
      cases hy
    | ok grantId =>
      rw [hc] at hy
      cases hy
      rw [List.lookup_cons]
      by_cases he : cls = c
      · exact ⟨grantId, by simp [he], he ▸ hc⟩
      · rw [beq_false_of_ne he]
        exact ih hys ((List.mem_cons.mp hmem).resolve_left he)

/-- The deadline is below the ceiling, and the grants of the units that are left outlive it. -/
theorem deadlineOf_ok {es : List (Expanded α)} {edges : List GraphEdge}
    (h : deadlineOf expiresAt now constants grantByClass es edges = .ok deadlineMs) :
    deadlineMs ≤ constants.planMaxDeadlineMs ∧ ∃ resolvedAt, now = some resolvedAt ∧ ∀ e ∈ es, e.skipped = none → ∀ grantId,
      grantByClass.lookup e.template.executionUnitClass = some grantId →
        ∃ t, expiresAt grantId = some (some t) ∧ resolvedAt + deadlineMs ≤ t := by
  obtain ⟨grants, hgrants, h⟩ := bind_ok_iff.mp h
  dsimp only at h
  split at h <;> cases h
  rename_i hdeadline
  obtain ⟨hceiling, resolvedAt, hnow, hgrant⟩ := computePlanDeadline_grants hdeadline
  refine ⟨hceiling, resolvedAt, hnow, fun e he hlive grantId hlookup => ?_⟩
  have hid : grantId ∈ ((es.filter (·.skipped.isNone)).filterMap fun e =>
      grantByClass.lookup e.template.executionUnitClass).eraseDups :=
    List.mem_eraseDups.mpr (List.mem_filterMap.mpr ⟨e, List.mem_filter.mpr ⟨he, by rw [hlive]; rfl⟩, hlookup⟩)
  obtain ⟨g, hg⟩ := mapM_answers.mp ⟨grants, hgrants⟩ grantId hid
  obtain ⟨t, ht, hle⟩ := hgrant g ((mem_of_mapM hgrants g).mpr ⟨grantId, hid, hg⟩)
  split at hg <;> cases hg
  rename_i hrow
  exact ⟨t, by rw [hrow, ← ht], hle⟩

/-- What is left of the graph depends only on what is left. -/
structure ResolvedPlan.Graph (plan : ResolvedPlan) : Prop where
  valid : Valid (plan.units.map fun u => ⟨u.id, u.executionUnitClass⟩) plan.edges
  closed : ∀ u ∈ plan.units, u.status = .PLANNED → ∀ b, Needs plan.edges u.id b → ∃ p ∈ plan.units, p.id = b ∧ p.status = .PLANNED

theorem resolveGraph_graph
    (h : resolveGraph uuid registry domains classMap perDomain isAuthorized expiresAt now constants = .ok plan) : plan.Graph := by
  obtain ⟨grantByClass, expanded, result, -, -, hmarked, hquiet, ⟨order, horder⟩, -, hunits⟩ := resolveGraph_ok h
  have hvalid := valid_of_ok (validate_of_topologicalOrder horder)
  refine ⟨by rwa [hunits, List.map_map], ?_⟩
  rw [hunits]
  intro u hu hlive b hdep
  obtain ⟨e, he, rfl⟩ := List.mem_map.mp hu
  have hb := (hvalid.known _ hdep).2
  rw [List.map_map] at hb
  obtain ⟨p, hp, rfl⟩ := List.mem_map.mp hb
  refine ⟨plannedUnit grantByClass p, List.mem_map_of_mem hp, rfl, plannedUnit_status.mpr ?_⟩
  by_contra hskipped
  have hnot := skipped_of_waits hquiet he hp hdep (Option.isSome_iff_ne_none.mpr hskipped)
  rw [plannedUnit_status.mp hlive] at hnot
  exact nomatch hnot

variable (isAuthorized expiresAt constants plan) in
/-- What holds of a plan when it is stored. -/
structure ResolvedPlan.Sound (resolvedAt : ℤ) : Prop extends plan.Graph where
  /-- The grant of a unit is the one that its class was allowed with. -/
  granted : ∀ u ∈ plan.units, isPassiveClass u.executionUnitClass = false →
    ∃ grantId, u.targetAuthorizationId = some grantId ∧ isAuthorized u.executionUnitClass = .ok grantId
  outlived : ∀ u ∈ plan.units, u.status = .PLANNED → isPassiveClass u.executionUnitClass = false → ∀ grantId,
    u.targetAuthorizationId = some grantId → ∃ t, expiresAt grantId = some (some t) ∧ resolvedAt + plan.deadlineMs ≤ t
  ceiling : plan.deadlineMs ≤ constants.planMaxDeadlineMs

/-- **A stored plan is sound.** -/
theorem resolveGraph_sound (hid : Function.Injective uuid)
    (h : resolveGraph uuid registry domains classMap perDomain isAuthorized expiresAt now constants = .ok plan) :
    ∃ resolvedAt, now = some resolvedAt ∧ plan.Sound isAuthorized expiresAt constants resolvedAt := by
  obtain ⟨grantByClass, expanded, result, hgrants, hexpand, hmarked, -, -, hdeadline, hunits⟩ := resolveGraph_ok h
  obtain ⟨hceiling, resolvedAt, hnow, houtlived⟩ := deadlineOf_ok hdeadline
  have hown (e : Expanded α) (hactive : isPassiveClass e.template.executionUnitClass = false) :
      (plannedUnit grantByClass e).targetAuthorizationId = grantByClass.lookup e.template.executionUnitClass := by
    simp [plannedUnit, grantOf, hactive]
  refine ⟨resolvedAt, hnow, resolveGraph_graph h, ?_, ?_, hceiling⟩
  · intro u hu hactive
    obtain ⟨e, he, rfl⟩ := List.mem_map.mp (hunits ▸ hu)
    obtain ⟨e₀, he₀, hm⟩ := exists_source hmarked he
    obtain ⟨hd, c, hc, ht⟩ := ((isExpansion_of_expand hid hexpand).units _ _).mp (List.mem_map_of_mem he₀)
    have hclass : c = e.template.executionUnitClass := by rw [hm.same, EngineRegistry.class_of_mem ht]
    rw [hclass] at hc
    obtain ⟨grantId, hlookup, hallowed⟩ := lookup_of_authorizeClasses hgrants (List.mem_flatMap.mpr ⟨_, hd, hc⟩) hactive
    exact ⟨grantId, (hown e hactive).trans hlookup, hallowed⟩
  · intro u hu hlive hactive grantId hu'
    obtain ⟨e, he, rfl⟩ := List.mem_map.mp (hunits ▸ hu)
    exact houtlived e he (plannedUnit_status.mp hlive) grantId ((hown e hactive).symm.trans hu')

end Stored

/-- A crawl in the browser, and an audit of what it has found. -/
def browserRegistry : EngineRegistry Unit :=
  (createEngineRegistry [⟨.SECURITY, .BROWSER, [⟨"crawl", "crawler", .BROWSER, 60000, 60000, 1, none, 0, none, none⟩,
    ⟨"audit", "auditor", .BROWSER, 60000, 60000, 1, none, 0, some ["crawl"], none⟩]⟩]).toOption.getD crawlRegistry

theorem browser_resolved : ∃ plan, resolveGraph sampleUuid browserRegistry [.SECURITY] (fun _ => [.BROWSER]) (fun _ => ())
    (fun _ => .ok "grant") (fun _ => some (some 86400000)) (some 0) DEFAULT_PLAN_DEADLINE_CONSTANTS = .ok plan :=
  (Option.isSome_iff_exists.mp (by decide)).imp fun _ => toOption_eq_some_iff.mp

theorem resolveGraph_sound_browser : ∃ plan : ResolvedPlan, ∃ resolvedAt, some 0 = some resolvedAt ∧
    plan.Sound (fun _ => .ok "grant") (fun _ => some (some 86400000)) DEFAULT_PLAN_DEADLINE_CONSTANTS resolvedAt :=
  browser_resolved.imp fun _ => resolveGraph_sound sampleUuid_injective

end WebAudit.Planning
