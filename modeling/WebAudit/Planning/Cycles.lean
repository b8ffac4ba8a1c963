import Mathlib.Data.List.Dedup
import WebAudit.Lib.Digraph
import WebAudit.Planning.Order

/-!
# What a graph has to be to pass, and the cycle that is reported

The loops of `findCycle` have no bound of their own. `Explores` and `Searches` are their runs with
as many rounds as they take; on every input there is one, and `findCycle` is what it comes to
(`searches_findCycle`): what is left to do gets less with every round.

The path of the search is at every time a chain of dependencies from the root to the unit on top
of the stack, and the grey units are those on it (`Walking`). So a grey neighbour closes a cycle.
-/

namespace WebAudit.Planning

open WebAudit.Lib

/-- One unit depends on another. -/
def Needs (edges : List GraphEdge) (a b : String) : Prop := (⟨a, b⟩ : GraphEdge) ∈ edges

/-- What makes units and edges an execution graph. -/
structure IsExecutionGraph (units : List GraphUnit) (edges : List GraphEdge) : Prop where
  named : ∀ unit ∈ units, unit.id ≠ ""
  unique : (units.map (·.id)).Nodup
  known : ∀ e ∈ edges, e.unitId ∈ units.map (·.id) ∧ e.dependsOnUnitId ∈ units.map (·.id)
  distinct : ∀ e ∈ edges, e.unitId ≠ e.dependsOnUnitId
  once : edges.Nodup
  acyclic : Acyclic (Needs edges)

/-! ### Runs of the search without a bound -/

section Search

variable {predecessors : String → List String} {ids roots : List String} {s s' : Search} {colour : String → Option Colour}

/-- A run of the inner loop: the cycle it finds, or the colours it leaves. -/
inductive Explores (predecessors : String → List String) : Search → List String ⊕ (String → Option Colour) → Prop where
  | done {s : Search} (h : s.step predecessors = .done) : Explores predecessors s (.inr s.colour)
  | cycle {s : Search} {ids : List String} (h : s.step predecessors = .cycle ids) : Explores predecessors s (.inl ids)
  | next {s s' : Search} {r : List String ⊕ (String → Option Colour)} (h : s.step predecessors = .next s')
      (hrest : Explores predecessors s' r) : Explores predecessors s r

/-- A run of the outer loop. -/
inductive Searches (predecessors : String → List String) : List String → (String → Option Colour) → Option (List String) → Prop where
  | done {colour : String → Option Colour} : Searches predecessors [] colour none
  | found {colour : String → Option Colour} {root : String} {roots ids : List String} (h : colour root = some .WHITE)
      (hcycle : Explores predecessors (.start colour root) (.inl ids)) : Searches predecessors (root :: roots) colour (some ids)
  | explored {colour colour' : String → Option Colour} {root : String} {roots : List String} {r : Option (List String)}
      (h : colour root = some .WHITE) (hdone : Explores predecessors (.start colour root) (.inr colour'))
      (hrest : Searches predecessors roots colour' r) : Searches predecessors (root :: roots) colour r
  | seen {colour : String → Option Colour} {root : String} {roots : List String} {r : Option (List String)}
      (h : colour root ≠ some .WHITE) (hrest : Searches predecessors roots colour r) : Searches predecessors (root :: roots) colour r

/-- With rounds enough for what is left to do, the inner loop comes to its end. -/
theorem explores_explore (hnd : ids.Nodup) {rounds : ℕ} (hwhite : ∀ id, s.colour id = some .WHITE → id ∈ ids)
    (hw : s.weight predecessors ids < rounds) :
    ∃ r, explore predecessors rounds s = some r ∧ Explores predecessors s r ∧
      ∀ colour', r = .inr colour' → ∀ id, colour' id = some .WHITE → s.colour id = some .WHITE := by
  induction rounds generalizing s with
  | zero => exact absurd hw (Nat.not_lt_zero _)
  | succ rounds ih =>
    unfold explore
    rcases hs : s.step predecessors with _ | cycle | s'
    · refine ⟨_, rfl, .done hs, fun colour' e => ?_⟩
      cases e
      exact fun _ hid => hid
    · exact ⟨_, rfl, .cycle hs, fun _ e => by cases e⟩
    · have hless := weight_step hnd (fun id _ _ => hwhite id) hs
      obtain ⟨r, hr, hrun, hkept⟩ := ih (fun id hid => hwhite id (white_of_step hs hid)) (by omega)
      exact ⟨r, hr, .next hs hrun, fun colour' e id hid => white_of_step hs (hkept colour' e id hid)⟩

/-- With rounds enough for all units and their neighbours, so does the outer loop. -/
theorem searches_searchFrom (hnd : ids.Nodup) {rounds : ℕ} (hrounds : (ids.map fun id => (predecessors id).length + 1).sum < rounds)
    (hwhite : ∀ id, colour id = some .WHITE → id ∈ ids) :
    Searches predecessors roots colour (searchFrom predecessors rounds roots colour) := by
  induction roots generalizing colour with
  | nil => exact .done
  | cons root roots ih =>
    unfold searchFrom
    split
    · rename_i hroot
      have hsub (id : String) (hid : Function.update colour root (some .GREY) id = some .WHITE) : colour id = some .WHITE :=
        (update_eq_some hid).resolve_left (by rintro ⟨-, ⟨⟩⟩)
      have hweight : (Search.start colour root).weight predecessors ids < rounds :=
        (weight_start hnd (hwhite root hroot) hroot).trans_lt hrounds
      obtain ⟨r, hr, hrun, hkept⟩ := explores_explore hnd (fun id hid => hwhite id (hsub id hid)) hweight
      unfold Search.start at hr
      rw [hr]
      rcases r with cycle | colour'
      · exact .found hroot hrun
      · exact .explored hroot hrun (ih fun id hid => hwhite id (hsub id (hkept colour' rfl id hid)))
    · rename_i hroot
      exact .seen hroot (ih hwhite)

/-! ### The path of the search -/

/-- The path leads from the root to the unit on top of the stack, and on it are the grey units, each once. -/
structure Walking (predecessors : String → List String) (s : Search) : Prop where
  path : s.path = (s.stack.map (·.id)).reverse
  chain : s.path.IsChain fun a b => b ∈ predecessors a
  grey : ∀ id, s.colour id = some .GREY ↔ id ∈ s.path
  once : s.path.Nodup

theorem update_eq_grey {c : Colour} {a : String} (id : String) :
    Function.update colour a (some c) id = some .GREY ↔ (if id = a then c = .GREY else colour id = some .GREY) := by
  by_cases e : id = a
  · simp [e]
  · simp [e]

theorem walking_start (hgrey : ∀ id, colour id ≠ some .GREY) (root : String) : Walking predecessors (.start colour root) := by
  refine ⟨rfl, .singleton root, fun id => ?_, List.nodup_singleton root⟩
  by_cases e : id = root
  · simp [Search.start, e]
  · simp [Search.start, e, hgrey id]

/-- A round keeps to the path. -/
theorem Walking.step (h : Walking predecessors s) (hs : s.step predecessors = .next s') : Walking predecessors s' := by
  obtain ⟨hpath, hchain, hgrey, honce⟩ := h
  obtain ⟨colour, path, stack⟩ := s
  rcases stack with _ | ⟨frame, rest⟩
  · cases hs
  rw [List.map_cons, List.reverse_cons] at hpath
  dsimp only at hpath hchain hgrey honce
  subst hpath
  unfold Search.step at hs
  dsimp only at hs
  split at hs
  · -- the unit on top leaves the path
    cases hs
    have hnew : frame.id ∉ (rest.map (·.id)).reverse := fun hmem =>
      (List.nodup_append.mp honce).2.2 _ hmem _ (List.mem_singleton_self _) rfl
    rw [List.dropLast_concat]
    refine ⟨rfl, hchain.left_of_append, fun id => ?_, (List.nodup_append.mp honce).1⟩
    rw [update_eq_grey]
    split
    · rename_i e
      rw [e]
      simpa using hnew
    · rename_i e
      simpa [e] using hgrey id
  · rename_i target htarget
    split at hs
    · cases hs
    · -- a white neighbour becomes the end of the path
      rename_i hwhite
      cases hs
      have hnew : target ∉ (rest.map (·.id)).reverse ++ [frame.id] := fun hmem => by
        rw [(hgrey target).mpr hmem] at hwhite
        cases hwhite
      refine ⟨by simp, List.isChain_append.mpr ⟨hchain, .singleton _, ?_⟩, fun id => ?_, ?_⟩
      · intro a ha b hb
        rw [List.getLast?_concat, Option.mem_some_iff] at ha
        rw [List.head?_cons, Option.mem_some_iff] at hb
        subst ha hb
        exact List.mem_of_getElem? htarget
      · rw [update_eq_grey, List.mem_append, List.mem_singleton]
        split
        · rename_i e
          simp [e]
        · rename_i e
          simpa [e] using hgrey id
      · refine List.nodup_append.mpr ⟨honce, List.nodup_singleton _, fun a ha b hb e => ?_⟩
        rw [e, List.mem_singleton.mp hb] at ha
        exact hnew ha
    · cases hs
      exact ⟨by simp, hchain, hgrey, honce⟩

/-- A grey neighbour closes a cycle. -/
theorem Walking.cycle (h : Walking predecessors s) (hs : s.step predecessors = .cycle ids) :
    IsCycle (fun a b => b ∈ predecessors a) ids := by
  obtain ⟨hpath, hchain, hgrey, honce⟩ := h
  obtain ⟨colour, path, stack⟩ := s
  rcases stack with _ | ⟨frame, rest⟩
  · cases hs
  rw [List.map_cons, List.reverse_cons] at hpath
  dsimp only at hpath hchain hgrey honce
  unfold Search.step at hs
  dsimp only at hs
  split at hs
  · cases hs
  rename_i target htarget
  split at hs
  · rename_i htargetGrey
    cases hs
    have hmem : target ∈ path := (hgrey target).mp htargetGrey
    have hlt : path.idxOf target < path.length := List.idxOf_lt_length_iff.mpr hmem
    have hdrop : path.drop (path.idxOf target) = target :: path.drop (path.idxOf target + 1) := by
      rw [List.drop_eq_getElem_cons hlt, List.getElem_idxOf hlt]
    have hlast : (path.drop (path.idxOf target)).getLast? = some frame.id := by
      rw [List.getLast?_drop, if_neg (by omega), hpath, List.getLast?_concat]
    refine ⟨List.isChain_append.mpr ⟨hchain.drop _, .singleton _, ?_⟩, ?_, ?_, ?_⟩
    · intro a ha b hb
      rw [hlast, Option.mem_some_iff] at ha
      rw [List.head?_cons, Option.mem_some_iff] at hb
      subst ha hb
      exact List.mem_of_getElem? htarget
    · rw [List.getLast?_concat, hdrop]
      rfl
    · rw [hdrop]
      simp
    · rw [List.dropLast_concat]
      exact honce.sublist (List.drop_sublist _ _)
  · cases hs
  · cases hs

/-- What a run of the inner loop comes to: a cycle, or colours without grey. -/
theorem Walking.explores {r : List String ⊕ (String → Option Colour)} (h : Walking predecessors s) (hrun : Explores predecessors s r) :
    (∀ ids, r = .inl ids → IsCycle (fun a b => b ∈ predecessors a) ids) ∧ ∀ colour', r = .inr colour' → ∀ id, colour' id ≠ some .GREY := by
  induction hrun with
  | @done s hs =>
    refine ⟨nofun, fun colour' e id hid => ?_⟩
    cases e
    have hempty : s.stack = [] := by
      rcases hstack : s.stack with _ | ⟨frame, rest⟩
      · rfl
      · simp only [Search.step, hstack] at hs
        split at hs
        · cases hs
        · split at hs <;> cases hs
    have hmem := (h.grey id).mp hid
    rw [h.path, hempty] at hmem
    cases hmem
  | cycle hs =>
    refine ⟨fun ids e => ?_, fun _ e => by cases e⟩
    cases e
    exact h.cycle hs
  | next hs _ ih => exact ih (h.step hs)

/-- **What is reported is a cycle.** -/
theorem isCycle_of_searches {r : Option (List String)} (hgrey : ∀ id, colour id ≠ some .GREY)
    (hrun : Searches predecessors roots colour r) : ∀ ids ∈ r, IsCycle (fun a b => b ∈ predecessors a) ids := by
  induction hrun with
  | done => exact nofun
  | found _ hcycle =>
    intro ids hids
    cases hids
    exact ((walking_start hgrey _).explores hcycle).1 _ rfl
  | explored _ hdone _ ih => exact ih (((walking_start hgrey _).explores hdone).2 _ rfl)
  | seen _ _ ih => exact ih hgrey

end Search

/-! ### Of the whole search -/

variable {units : List GraphUnit} {edges : List GraphEdge}

/-- The colours at the start: all units are white. -/
def initial (units : List GraphUnit) (id : String) : Option Colour :=
  if (sortIds (units.map (·.id))).contains id then some .WHITE else none

/-- **The search ends on every input**, and `findCycle` is what it comes to. -/
theorem searches_findCycle (units : List GraphUnit) (edges : List GraphEdge) :
    Searches (predecessorsOf edges) (sortIds (units.map (·.id))) (initial units) (findCycle units edges) := by
  have hdegrees := degrees_le (List.nodup_dedup (units.map (·.id))) edges
  have hlength : (units.map (·.id)).dedup.length ≤ units.length := by
    simpa using (List.dedup_sublist (units.map (·.id))).length_le
  have hrounds : ((units.map (·.id)).dedup.map fun id => (predecessorsOf edges id).length + 1).sum <
      units.length + edges.length + 1 := by
    rw [List.sum_map_add, List.map_const', List.sum_replicate, nsmul_one]
    simp only [Nat.cast_id]
    omega
  refine searches_searchFrom (List.nodup_dedup (units.map (·.id))) hrounds fun id hid => ?_
  unfold initial at hid
  split at hid
  · rename_i hmem
    exact List.mem_dedup.mpr (mem_sortIds.mp (List.contains_iff_mem.mp hmem))
  · cases hid

theorem isCycle_of_findCycle {ids : List String} (h : findCycle units edges = some ids) : IsCycle (Needs edges) ids := by
  have hgrey : ∀ id, initial units id ≠ some .GREY := fun id => by
    unfold initial
    split <;> nofun
  obtain ⟨hchain, hclosed, hlong, honce⟩ := isCycle_of_searches hgrey (searches_findCycle units edges) ids h
  exact ⟨hchain.imp fun _ _ => mem_predecessorsOf.mp, hclosed, hlong, honce⟩

/-- A valid graph has no cycle. -/
theorem Valid.acyclic (h : Valid units edges) : Acyclic (Needs edges) := by
  obtain ⟨l, hl, hall⟩ := exists_listing h
  exact (hl.acyclic fun a b hab => hall a (h.known _ (mem_predecessorsOf.mp hab)).1).mono fun _ _ => mem_predecessorsOf.mpr

/-- What the search finds in a graph that has passed the other checks. -/
theorem findCycle_eq_none_iff (hunique : (units.map (·.id)).Nodup)
    (hknown : ∀ e ∈ edges, e.unitId ∈ units.map (·.id) ∧ e.dependsOnUnitId ∈ units.map (·.id)) (honce : edges.Nodup) :
    findCycle units edges = none ↔ Acyclic (Needs edges) := by
  constructor
  · exact fun hnone => Valid.acyclic ⟨hunique, hknown, honce, hnone⟩
  · intro hacyclic
    rcases hc : findCycle units edges with _ | ids
    · rfl
    · exact absurd hacyclic (isCycle_of_findCycle hc).not_acyclic

/-- What an accepted graph is, the keys of its edges included. -/
theorem validateExecutionGraph_iff_keys : validateExecutionGraph units edges = .ok () ↔
    IsExecutionGraph units edges ∧ (edges.map edgeKey).Nodup := by
  rw [validateExecutionGraph_iff]
  constructor
  · rintro ⟨⟨hnamed, hunique⟩, ⟨hknown, hkeys⟩, hnone⟩
    have hknown' := fun e he => (hknown e he).1
    have honce := hkeys.of_map _
    exact ⟨⟨hnamed, hunique, hknown', fun e he => (hknown e he).2, honce, (findCycle_eq_none_iff hunique hknown' honce).mp hnone⟩,
      hkeys⟩
  · rintro ⟨⟨hnamed, hunique, hknown, hdistinct, honce, hacyclic⟩, hkeys⟩
    exact ⟨⟨hnamed, hunique⟩, ⟨fun e he => ⟨hknown e he, hdistinct e he⟩, hkeys⟩,
      (findCycle_eq_none_iff hunique hknown honce).mpr hacyclic⟩

/-- Edges with other ids have other keys, unless the character that separates the ids is in one. -/
theorem edgeKey_inj {e e' : GraphEdge} (hunit : '\x00' ∉ e.unitId.toList) (hdep : '\x00' ∉ e.dependsOnUnitId.toList)
    (h : edgeKey e = edgeKey e') : e = e' := by
  have hlist := congrArg String.toList h
  simp only [edgeKey, String.toList_append, List.append_assoc] at hlist
  rw [show ("\x00" : String).toList = ['\x00'] from rfl, List.singleton_append, List.singleton_append,
    List.append_cons_inj_of_notMem hunit hdep, String.toList_inj, String.toList_inj] at hlist
  cases e
  cases e'
  simp_all

theorem validateUnits_error {ids : List String} {error : PlanGraphError} (h : validateUnits ids units = .error error) :
    error.code ≠ .CYCLE := by
  induction units generalizing ids with
  | nil => cases h
  | cons unit units ih =>
    unfold validateUnits at h
    split at h
    · cases h
      rintro ⟨⟩
    split at h
    · cases h
      rintro ⟨⟩
    · exact ih h

theorem validateEdges_error {ids seen : List String} {error : PlanGraphError} (h : validateEdges ids seen edges = .error error) :
    error.code ≠ .CYCLE := by
  induction edges generalizing seen with
  | nil => cases h
  | cons edge edges ih =>
    simp only [validateEdges] at h
    split at h
    · cases h
      rintro ⟨⟩
    split at h
    · cases h
      rintro ⟨⟩
    split at h
    · cases h
      rintro ⟨⟩
    · exact ih h

/-- A cycle is reported by the search alone. -/
theorem findCycle_of_error {error : PlanGraphError} (h : validateExecutionGraph units edges = .error error)
    (hcode : error.code = .CYCLE) : ∃ ids, error.cycle = some ids ∧ findCycle units edges = some ids := by
  unfold validateExecutionGraph at h
  rcases hu : validateUnits [] units with e | ids <;> simp only [hu, bind, Except.bind] at h
  · cases h
    exact absurd hcode (validateUnits_error hu)
  rcases he : validateEdges ids [] edges with e | u <;> simp only [he] at h
  · cases h
    exact absurd hcode (validateEdges_error he)
  rcases hc : findCycle units edges with _ | cycle <;> simp only [hc] at h
  · cases h
  · cases h
    exact ⟨cycle, rfl, rfl⟩

/-- **Validation is exact.** What is accepted is an execution graph, and every execution graph whose ids do not contain
the separator is accepted; a cycle that is reported is one; and the search ends on every input. -/
theorem validation_exact (units : List GraphUnit) (edges : List GraphEdge) :
    (validateExecutionGraph units edges = .ok () → IsExecutionGraph units edges) ∧
      ((∀ unit ∈ units, '\x00' ∉ unit.id.toList) → IsExecutionGraph units edges → validateExecutionGraph units edges = .ok ()) ∧
      (∀ error, validateExecutionGraph units edges = .error error → error.code = .CYCLE →
        ∃ ids, error.cycle = some ids ∧ IsCycle (Needs edges) ids) ∧
      Searches (predecessorsOf edges) (sortIds (units.map (·.id))) (initial units) (findCycle units edges) := by
  refine ⟨fun h => (validateExecutionGraph_iff_keys.mp h).1, fun hsep h => ?_, fun error herror hcode => ?_,
    searches_findCycle units edges⟩
  · have hfree (id : String) (hid : id ∈ units.map (·.id)) : '\x00' ∉ id.toList := by
      obtain ⟨unit, hunit, rfl⟩ := List.mem_map.mp hid
      exact hsep unit hunit
    refine validateExecutionGraph_iff_keys.mpr ⟨h, List.Nodup.map_on (fun e he e' _ hkey => ?_) h.once⟩
    exact edgeKey_inj (hfree _ (h.known e he).1) (hfree _ (h.known e he).2) hkey
  · obtain ⟨ids, hids, hfound⟩ := findCycle_of_error herror hcode
    exact ⟨ids, hids, isCycle_of_findCycle hfound⟩

/-- A unit whose id is empty is refused, though no other unit has that id. -/
theorem empty_id_refused :
    ¬ ∀ (units : List GraphUnit) (edges : List GraphEdge), validateExecutionGraph units edges = .ok () ↔
      (units.map (·.id)).Nodup ∧ (∀ e ∈ edges, e.unitId ∈ units.map (·.id) ∧ e.dependsOnUnitId ∈ units.map (·.id)) ∧
        (∀ e ∈ edges, e.unitId ≠ e.dependsOnUnitId) ∧ edges.Nodup ∧ Acyclic (Needs edges) := by
  intro h
  have hacyclic : Acyclic (Needs []) := fun a hcycle => by
    obtain ⟨b, hb, -⟩ := Relation.TransGen.head'_iff.mp hcycle
    exact nomatch hb
  have hok := (h [⟨"", .PASSIVE_HTTP⟩] []).mpr
    ⟨by decide, nofun, nofun, List.nodup_nil, hacyclic⟩
  cases hok

end WebAudit.Planning
