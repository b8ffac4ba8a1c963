import Mathlib.Algebra.Order.BigOperators.Group.List
import WebAudit.Lib.Listing
import WebAudit.Lib.Rows
import WebAudit.Planning.Graph

/-!
# The order of the units is one

Of a graph that passes `validateExecutionGraph`, the search for a cycle has blackened all
units, each after those it depends on (`exists_listing`). So the sort does not get stuck: its
order lists every unit once, after those it depends on (`topologicalOrder_ok`).
-/

namespace WebAudit.Planning

open WebAudit.Lib

/-! ### What validation says -/

/-- What the checks of units and edges come to. -/
structure Valid (units : List GraphUnit) (edges : List GraphEdge) : Prop where
  ids : (units.map (·.id)).Nodup
  known : ∀ e ∈ edges, e.unitId ∈ units.map (·.id) ∧ e.dependsOnUnitId ∈ units.map (·.id)
  once : edges.Nodup
  noCycle : findCycle units edges = none

/-- What the set of edges seen is a set of. -/
def edgeKey (edge : GraphEdge) : String := edge.unitId ++ "\x00" ++ edge.dependsOnUnitId

variable {units : List GraphUnit} {edges : List GraphEdge}

theorem validateUnits_iff {ids ids' : List String} : validateUnits ids units = .ok ids' ↔
    (∀ unit ∈ units, unit.id ≠ "" ∧ unit.id ∉ ids) ∧ (units.map (·.id)).Nodup ∧ ids' = ids ++ units.map (·.id) := by
  induction units generalizing ids with
  | nil =>
    rw [validateUnits, Except.ok.injEq, List.map_nil, List.append_nil]
    exact ⟨fun e => ⟨nofun, List.nodup_nil, e.symm⟩, fun h => h.2.2.symm⟩
  | cons unit units ih =>
    unfold validateUnits
    split
    · rename_i hempty
      simp [hempty]
    split
    · rename_i hseen
      simp only [List.forall_mem_cons, reduceCtorEq, false_iff]
      exact fun h => h.1.1.2 (List.contains_iff_mem.mp hseen)
    · rename_i hempty hnew
      rw [List.contains_iff_mem] at hnew
      rw [ih, List.forall_mem_cons, List.map_cons, List.nodup_cons, List.append_assoc, List.singleton_append]
      constructor
      · rintro ⟨hall, hnd, rfl⟩
        refine ⟨⟨⟨hempty, hnew⟩, fun u hu => ⟨(hall u hu).1, ?_⟩⟩, ⟨fun hmem => ?_, hnd⟩, rfl⟩
        · exact fun hmem => (hall u hu).2 (List.mem_append_left _ hmem)
        · obtain ⟨u, hu, e⟩ := List.mem_map.mp hmem
          exact (hall u hu).2 (List.mem_append_right _ (List.mem_singleton.mpr e))
      · rintro ⟨⟨-, hall⟩, ⟨hother, hnd⟩, rfl⟩
        refine ⟨fun u hu => ⟨(hall u hu).1, fun hmem => ?_⟩, hnd, rfl⟩
        rcases List.mem_append.mp hmem with hmem | hmem
        · exact (hall u hu).2 hmem
        · exact hother (List.mem_map.mpr ⟨u, hu, List.mem_singleton.mp hmem⟩)

theorem validateEdges_iff {ids seen : List String} : validateEdges ids seen edges = .ok () ↔
    (∀ e ∈ edges, (e.unitId ∈ ids ∧ e.dependsOnUnitId ∈ ids) ∧ e.unitId ≠ e.dependsOnUnitId ∧ edgeKey e ∉ seen) ∧
      (edges.map edgeKey).Nodup := by
  induction edges generalizing seen with
  | nil => simp [validateEdges]
  | cons edge edges ih =>
    simp only [validateEdges, List.forall_mem_cons, List.map_cons, List.nodup_cons]
    split
    · rename_i hunknown
      simp only [Bool.or_eq_true, Bool.not_eq_true', List.contains_eq_mem, decide_eq_false_iff_not] at hunknown
      simp only [reduceCtorEq, false_iff]
      exact fun h => hunknown.elim (fun hu => hu h.1.1.1.1) fun hd => hd h.1.1.1.2
    split
    · rename_i hself
      simp [hself]
    split
    · rename_i hseen
      simp only [reduceCtorEq, false_iff]
      exact fun h => h.1.1.2.2 (List.contains_iff_mem.mp hseen)
    · rename_i hknown hself hnew
      simp only [Bool.or_eq_true, Bool.not_eq_true', List.contains_eq_mem, decide_eq_false_iff_not, not_or, not_not] at hknown
      rw [List.contains_iff_mem] at hnew
      rw [ih]
      constructor
      · rintro ⟨hall, hnd⟩
        refine ⟨⟨⟨hknown, hself, hnew⟩, fun e he => ⟨(hall e he).1, (hall e he).2.1, fun hmem => ?_⟩⟩, fun hmem => ?_, hnd⟩
        · exact (hall e he).2.2 (List.mem_append_left _ hmem)
        · obtain ⟨e, he, hkey⟩ := List.mem_map.mp hmem
          exact (hall e he).2.2 (List.mem_append_right _ (List.mem_singleton.mpr hkey))
      · rintro ⟨⟨-, hall⟩, hother, hnd⟩
        refine ⟨fun e he => ⟨(hall e he).1, (hall e he).2.1, fun hmem => ?_⟩, hnd⟩
        rcases List.mem_append.mp hmem with hmem | hmem
        · exact (hall e he).2.2 hmem
        · exact hother (List.mem_map.mpr ⟨e, he, List.mem_singleton.mp hmem⟩)

/-- What an accepted graph has passed. -/
theorem validateExecutionGraph_iff : validateExecutionGraph units edges = .ok () ↔
    ((∀ unit ∈ units, unit.id ≠ "") ∧ (units.map (·.id)).Nodup) ∧
      ((∀ e ∈ edges, (e.unitId ∈ units.map (·.id) ∧ e.dependsOnUnitId ∈ units.map (·.id)) ∧ e.unitId ≠ e.dependsOnUnitId) ∧
        (edges.map edgeKey).Nodup) ∧ findCycle units edges = none := by
  have hunits (ids' : List String) := @validateUnits_iff units [] ids'
  have hedges := @validateEdges_iff edges (units.map (·.id)) []
  simp only [List.not_mem_nil, not_false_eq_true, and_true, List.nil_append] at hunits hedges
  unfold validateExecutionGraph
  rcases hu : validateUnits [] units with e | ids
  · simp only [bind, Except.bind, reduceCtorEq, false_iff]
    rintro ⟨hok, -⟩
    rw [(hunits _).mpr ⟨hok.1, hok.2, rfl⟩] at hu
    cases hu
  · obtain ⟨hnamed, hunique, rfl⟩ := (hunits ids).mp hu
    rw [← hedges]
    rcases he : validateEdges (units.map (·.id)) [] edges with e | u <;> simp only [he, bind, Except.bind]
    · simp
    · rcases findCycle units edges with _ | cycle
      · exact ⟨fun _ => ⟨⟨hnamed, hunique⟩, trivial, rfl⟩, fun _ => rfl⟩
      · simp

theorem valid_of_ok (h : validateExecutionGraph units edges = .ok ()) : Valid units edges := by
  obtain ⟨⟨-, hunique⟩, ⟨hknown, honce⟩, hnone⟩ := validateExecutionGraph_iff.mp h
  exact ⟨hunique, fun e he => (hknown e he).1, honce.of_map _, hnone⟩

theorem mem_predecessorsOf {a b : String} : b ∈ predecessorsOf edges a ↔ (⟨a, b⟩ : GraphEdge) ∈ edges := by
  unfold predecessorsOf
  rw [mem_sortIds, List.mem_map]
  constructor
  · rintro ⟨e, he, rfl⟩
    obtain ⟨hmem, ha⟩ := List.mem_filter.mp he
    obtain rfl : e.unitId = a := by simpa using ha
    exact hmem
  · exact fun he => ⟨_, List.mem_filter.mpr ⟨he, by simp⟩, rfl⟩

theorem mem_dependentsOf {a b : String} : a ∈ dependentsOf edges b ↔ (⟨a, b⟩ : GraphEdge) ∈ edges := by
  unfold dependentsOf
  rw [mem_sortIds, List.mem_map]
  constructor
  · rintro ⟨e, he, rfl⟩
    obtain ⟨hmem, hb⟩ := List.mem_filter.mp he
    obtain rfl : e.dependsOnUnitId = b := by simpa using hb
    exact hmem
  · exact fun he => ⟨_, List.mem_filter.mpr ⟨he, by simp⟩, rfl⟩

/-- No edge is there twice, so no neighbour is. -/
theorem predecessorsOf_nodup (h : edges.Nodup) (a : String) : (predecessorsOf edges a).Nodup := by
  refine (sortIds_perm _).nodup_iff.mpr (List.Nodup.map_on (fun e he e' he' hd => ?_) (h.filter _))
  have ha : e.unitId = a := by simpa using (List.mem_filter.mp he).2
  have ha' : e'.unitId = a := by simpa using (List.mem_filter.mp he').2
  cases e
  cases e'
  simp_all

theorem dependentsOf_nodup (h : edges.Nodup) (b : String) : (dependentsOf edges b).Nodup := by
  refine (sortIds_perm _).nodup_iff.mpr (List.Nodup.map_on (fun e he e' he' hd => ?_) (h.filter _))
  have hb : e.dependsOnUnitId = b := by simpa using (List.mem_filter.mp he).2
  have hb' : e'.dependsOnUnitId = b := by simpa using (List.mem_filter.mp he').2
  cases e
  cases e'
  simp_all

/-! ### The search for a cycle -/

section Search

variable {predecessors : String → List String} {ids l : List String} {s s' : Search}

/-- What the frames have looked at is listed, the neighbour last looked at excepted, whose frame is the next. -/
def Examined (predecessors : String → List String) (l : List String) : Option String → List Frame → Prop
  | _, [] => True
  | child, frame :: rest =>
    (∀ j < frame.next, ∀ id, (predecessors frame.id)[j]? = some id → id ∈ l ∨ child = some id) ∧
      Examined predecessors l (some frame.id) rest

theorem Examined.mono {child : Option String} {frames : List Frame} {l' : List String} (h : Examined predecessors l child frames)
    (hl : ∀ id ∈ l, id ∈ l') : Examined predecessors l' child frames := by
  induction frames generalizing child with
  | nil => trivial
  | cons frame rest ih => exact ⟨fun j hj id hid => (h.1 j hj id hid).imp_left (hl id), ih h.2⟩

/-- The black units are listed, each after those it depends on. -/
structure Exploring (predecessors : String → List String) (ids l : List String) (s : Search) : Prop where
  listing : Listing (fun a b => b ∈ predecessors a) l
  black : ∀ id, s.colour id = some .BLACK → id ∈ l
  grey : ∀ id, s.colour id = some .GREY → id ∈ s.stack.map (·.id)
  coloured : ∀ id, s.colour id ≠ none ↔ id ∈ ids
  known : ∀ frame ∈ s.stack, frame.id ∈ ids
  examined : Examined predecessors l none s.stack

theorem update_eq_some {colour : String → Option Colour} {a id : String} {c c' : Colour}
    (h : Function.update colour a (some c) id = some c') : id = a ∧ c = c' ∨ colour id = some c' := by
  by_cases e : id = a
  · rw [e, Function.update_self] at h
    exact Or.inl ⟨e, Option.some.inj h⟩
  · rw [Function.update_of_ne e] at h
    exact Or.inr h

theorem update_ne_none {colour : String → Option Colour} {a : String} {c : Colour} (ha : a ∈ ids)
    (h : ∀ id, colour id ≠ none ↔ id ∈ ids) (id : String) : Function.update colour a (some c) id ≠ none ↔ id ∈ ids := by
  by_cases e : id = a
  · rw [e, Function.update_self]
    exact ⟨fun _ => ha, fun _ => Option.some_ne_none _⟩
  · rw [Function.update_of_ne e]
    exact h id

/-- A round leaves no unit white that was not. -/
theorem white_of_step (hs : s.step predecessors = .next s') {id : String} (hid : s'.colour id = some .WHITE) :
    s.colour id = some .WHITE := by
  obtain ⟨colour, path, stack⟩ := s
  rcases stack with _ | ⟨frame, rest⟩
  · cases hs
  unfold Search.step at hs
  dsimp only at hs
  split at hs
  · cases hs
    exact (update_eq_some hid).resolve_left nofun
  · split at hs
    · cases hs
    · cases hs
      exact (update_eq_some hid).resolve_left nofun
    · cases hs
      exact hid

/-- A round of the search. -/
theorem Exploring.step (hpred : ∀ id ∈ ids, ∀ p ∈ predecessors id, p ∈ ids) (h : Exploring predecessors ids l s)
    (hs : s.step predecessors = .next s') : ∃ l', Exploring predecessors ids l' s' := by
  obtain ⟨hlisting, hblack, hgrey, hcoloured, hknown, hexamined⟩ := h
  obtain ⟨colour, path, stack⟩ := s
  rcases stack with _ | ⟨frame, rest⟩
  · cases hs
  have hframe : frame.id ∈ ids := hknown frame (List.mem_cons_self ..)
  unfold Search.step at hs
  dsimp only at hs
  split at hs
  · -- all neighbours have been looked at: the unit is listed
    rename_i hend
    cases hs
    refine ⟨l ++ [frame.id], .snoc hlisting fun p hp => ?_, ?_, ?_, update_ne_none hframe hcoloured, ?_, ?_⟩
    · obtain ⟨j, hj⟩ := List.mem_iff_getElem?.mp hp
      have hlt : j < frame.next :=
        Nat.lt_of_lt_of_le (List.getElem?_eq_some_iff.mp hj).1 (List.getElem?_eq_none_iff.mp hend)
      exact (hexamined.1 j hlt p hj).resolve_right nofun
    · intro id hid
      rcases update_eq_some hid with ⟨rfl, -⟩ | hid
      · exact List.mem_append_right _ (List.mem_singleton_self _)
      · exact List.mem_append_left _ (hblack id hid)
    · intro id hid
      rcases update_eq_some hid with ⟨-, e⟩ | hid'
      · cases e
      · refine (List.mem_cons.mp (hgrey id hid')).resolve_left fun e => ?_
        rw [e] at hid
        dsimp only at hid
        rw [Function.update_self] at hid
        cases hid
    · exact fun f hf => hknown f (List.mem_cons_of_mem _ hf)
    · have hrest := hexamined.2
      cases rest with
      | nil => trivial
      | cons parent rest =>
        refine ⟨fun j hj id hid => ?_, hrest.2.mono fun id hid => List.mem_append_left _ hid⟩
        rcases hrest.1 j hj id hid with hid | hid
        · exact Or.inl (List.mem_append_left _ hid)
        · cases hid
          exact Or.inl (List.mem_append_right _ (List.mem_singleton_self _))
  · rename_i target htarget
    have htargetIds : target ∈ ids := hpred _ hframe _ (List.mem_of_getElem? htarget)
    split at hs
    · cases hs
    · -- a neighbour not seen before: its frame is the next
      cases hs
      refine ⟨l, hlisting, ?_, ?_, update_ne_none htargetIds hcoloured, ?_, ?_⟩
      · intro id hid
        rcases update_eq_some hid with ⟨-, e⟩ | hid
        · cases e
        · exact hblack id hid
      · intro id hid
        rcases update_eq_some hid with ⟨rfl, -⟩ | hid
        · exact List.mem_cons_self ..
        · exact List.mem_cons_of_mem _ (hgrey id hid)
      · rintro f (_ | ⟨_, _ | ⟨_, hf⟩⟩)
        · exact htargetIds
        · exact hframe
        · exact hknown f (List.mem_cons_of_mem _ hf)
      · refine ⟨fun j hj => absurd hj (Nat.not_lt_zero j), fun j hj id hid => ?_, hexamined.2⟩
        rcases Nat.lt_succ_iff_lt_or_eq.mp hj with hlt | rfl
        · exact (hexamined.1 j hlt id hid).imp_right nofun
        · rw [htarget] at hid
          exact Or.inr hid
    · -- a neighbour that is black
      rename_i hgrey' hwhite
      have htargetBlack : target ∈ l := by
        refine hblack target ?_
        rcases hc : colour target with _ | _ | _ | _
        · exact absurd hc ((hcoloured target).mpr htargetIds)
        · exact absurd hc hwhite
        · exact absurd hc hgrey'
        · exact hc
      cases hs
      refine ⟨l, hlisting, hblack, hgrey, hcoloured, ?_, ?_, hexamined.2⟩
      · rintro f (_ | ⟨_, hf⟩)
        · exact hframe
        · exact hknown f (List.mem_cons_of_mem _ hf)
      · intro j hj id hid
        rcases Nat.lt_succ_iff_lt_or_eq.mp hj with hlt | rfl
        · exact hexamined.1 j hlt id hid
        · rw [htarget] at hid
          cases hid
          exact Or.inl htargetBlack

/-- What is left to do: for each unit not seen yet its neighbours and itself, for each frame the neighbours left and
its end. -/
def Search.weight (predecessors : String → List String) (ids : List String) (s : Search) : ℕ :=
  (ids.map fun id => if s.colour id = some .WHITE then (predecessors id).length + 1 else 0).sum +
    (s.stack.map fun frame => (predecessors frame.id).length - frame.next + 1).sum

/-- Every round does some of it. -/
theorem weight_step (hnd : ids.Nodup) (hwhite : ∀ id a, id ∈ predecessors a → s.colour id = some .WHITE → id ∈ ids)
    (hs : s.step predecessors = .next s') : s'.weight predecessors ids < s.weight predecessors ids := by
  obtain ⟨colour, path, stack⟩ := s
  rcases stack with _ | ⟨frame, rest⟩
  · cases hs
  unfold Search.step at hs
  dsimp only at hs
  split at hs
  · cases hs
    have hle : (ids.map fun id => if Function.update colour frame.id (some Colour.BLACK) id = some .WHITE then
        (predecessors id).length + 1 else 0).sum ≤
        (ids.map fun id => if colour id = some .WHITE then (predecessors id).length + 1 else 0).sum := by
      refine List.sum_le_sum fun id _ => ?_
      split
      · rename_i hid
        rw [if_pos ((update_eq_some hid).resolve_left nofun)]
      · exact Nat.zero_le _
    simp only [Search.weight, List.map_cons, List.sum_cons]
    omega
  · rename_i target htarget
    have hlt : frame.next < (predecessors frame.id).length := (List.getElem?_eq_some_iff.mp htarget).1
    split at hs
    · cases hs
    · rename_i htargetWhite
      cases hs
      have hsum := sum_map_lower (f := fun id => if colour id = some .WHITE then (predecessors id).length + 1 else 0)
        (g := fun id => if Function.update colour target (some Colour.GREY) id = some .WHITE then
          (predecessors id).length + 1 else 0) (n := (predecessors target).length + 1) hnd
        (hwhite target frame.id (List.mem_of_getElem? htarget) htargetWhite)
        (fun id _ hne => by rw [Function.update_of_ne hne]) (by simp [htargetWhite])
      simp only [Search.weight, List.map_cons, List.sum_cons]
      omega
    · cases hs
      simp only [Search.weight, List.map_cons, List.sum_cons]
      omega

/-- The state in which the search of a root starts. -/
def Search.start (colour : String → Option Colour) (root : String) : Search :=
  ⟨Function.update colour root (some .GREY), [root], [⟨root, 0⟩]⟩

/-- What is left to do at the start is no more than all units and their neighbours. -/
theorem weight_start {colour : String → Option Colour} {root : String} (hnd : ids.Nodup) (hroot : root ∈ ids)
    (hwhite : colour root = some .WHITE) :
    (Search.start colour root).weight predecessors ids ≤ (ids.map fun id => (predecessors id).length + 1).sum := by
  have hsum := sum_map_lower (f := fun id => if colour id = some .WHITE then (predecessors id).length + 1 else 0)
    (g := fun id => if Function.update colour root (some Colour.GREY) id = some .WHITE then
      (predecessors id).length + 1 else 0) (n := (predecessors root).length + 1) hnd hroot
    (fun id _ hne => by rw [Function.update_of_ne hne]) (by simp [hwhite])
  have hle : (ids.map fun id => if colour id = some .WHITE then (predecessors id).length + 1 else 0).sum ≤
      (ids.map fun id => (predecessors id).length + 1).sum := by
    refine List.sum_le_sum fun id _ => ?_
    split
    · exact le_refl _
    · exact Nat.zero_le _
  unfold Search.start Search.weight
  simp only [List.map_cons, List.sum_cons, List.map_nil, List.sum_nil]
  omega

/-- A search that ends without a cycle has listed every unit it came to. -/
theorem explore_spec (hnd : ids.Nodup) (hpred : ∀ id ∈ ids, ∀ p ∈ predecessors id, p ∈ ids) {rounds : ℕ}
    (h : Exploring predecessors ids l s) (hw : s.weight predecessors ids < rounds) :
    (∃ cycle, explore predecessors rounds s = some (.inl cycle)) ∨
      ∃ colour l', explore predecessors rounds s = some (.inr colour) ∧ Exploring predecessors ids l' ⟨colour, [], []⟩ ∧
        ∀ id, colour id = some .WHITE → s.colour id = some .WHITE := by
  induction rounds generalizing s l with
  | zero => exact absurd hw (Nat.not_lt_zero _)
  | succ rounds ih =>
    unfold explore
    rcases hs : s.step predecessors with _ | cycle | s'
    · have hstack : s.stack = [] := by
        rcases hstack : s.stack with _ | ⟨frame, rest⟩
        · rfl
        · simp only [Search.step, hstack] at hs
          split at hs
          · cases hs
          · split at hs <;> cases hs
      refine Or.inr ⟨s.colour, l, rfl, ⟨h.listing, h.black, ?_, h.coloured, ?_, trivial⟩, fun _ hid => hid⟩
      · exact hstack ▸ h.grey
      · exact nofun
    · exact Or.inl ⟨cycle, rfl⟩
    · obtain ⟨l', hl'⟩ := h.step hpred hs
      have := weight_step hnd (fun id _ _ hid => (h.coloured id).mp fun hnone => by simp [hid] at hnone) hs
      rcases ih hl' (by omega) with hc | ⟨colour, l'', he, hl'', hwhite'⟩
      · exact Or.inl hc
      · exact Or.inr ⟨colour, l'', he, hl'', fun id hid => white_of_step hs (hwhite' id hid)⟩

/-- The search from one root after another. -/
theorem searchFrom_none (hnd : ids.Nodup) (hpred : ∀ id ∈ ids, ∀ p ∈ predecessors id, p ∈ ids) {rounds : ℕ}
    (hrounds : (ids.map fun id => (predecessors id).length + 1).sum < rounds) {roots : List String}
    {colour : String → Option Colour} (h : Exploring predecessors ids l ⟨colour, [], []⟩) (hmem : ∀ id ∈ roots, id ∈ ids)
    (hroots : ∀ id, colour id = some .WHITE → id ∈ roots) (hnone : searchFrom predecessors rounds roots colour = none) :
    ∃ l', Listing (fun a b => b ∈ predecessors a) l' ∧ ∀ id ∈ ids, id ∈ l' := by
  induction roots generalizing colour l with
  | nil =>
    refine ⟨l, h.listing, fun id hid => h.black id ?_⟩
    rcases hc : colour id with _ | _ | _ | _
    · exact absurd hc ((h.coloured id).mpr hid)
    · exact nomatch hroots id hc
    · exact nomatch h.grey id hc
    · exact hc
  | cons root roots ih =>
    have hroot : root ∈ ids := hmem root (List.mem_cons_self ..)
    have hmem' : ∀ id ∈ roots, id ∈ ids := fun id hid => hmem id (List.mem_cons_of_mem _ hid)
    unfold searchFrom at hnone
    split at hnone
    · rename_i hwhite
      have hstart : Exploring predecessors ids l (.start colour root) := by
        refine ⟨h.listing, fun id hid => ?_, fun id hid => ?_, update_ne_none hroot h.coloured, ?_, ?_⟩
        · exact h.black id ((update_eq_some hid).resolve_left nofun)
        · rcases update_eq_some hid with ⟨rfl, -⟩ | hid
          · exact List.mem_cons_self ..
          · exact nomatch h.grey id hid
        · rintro frame (_ | ⟨_, hframe⟩)
          · exact hroot
          · cases hframe
        · exact ⟨fun j hj => absurd hj (Nat.not_lt_zero j), trivial⟩
      have hweight : (Search.start colour root).weight predecessors ids < rounds := (weight_start hnd hroot hwhite).trans_lt hrounds
      rw [show (⟨Function.update colour root (some .GREY), [root], [⟨root, 0⟩]⟩ : Search) = .start colour root from rfl] at hnone
      rcases explore_spec hnd hpred hstart hweight with ⟨cycle, he⟩ | ⟨colour', l', he, hl', hwhite'⟩
      · rw [he] at hnone
        cases hnone
      · rw [he] at hnone
        refine ih hl' hmem' (fun id hid => ?_) hnone
        have hid' := hwhite' id hid
        refine (List.mem_cons.mp (hroots id ((update_eq_some hid').resolve_left nofun))).resolve_left fun e => ?_
        rw [e, Search.start] at hid'
        simp only [Function.update_self] at hid'
        cases hid'
    · rename_i hwhite
      refine ih h hmem' (fun id hid => ?_) hnone
      exact (List.mem_cons.mp (hroots id hid)).resolve_left fun e => hwhite (e ▸ hid)

end Search

/-- The edges of all units are those of the graph at most. -/
theorem degrees_le {ids : List String} (hnd : ids.Nodup) (edges : List GraphEdge) :
    (ids.map fun id => (predecessorsOf edges id).length).sum ≤ edges.length := by
  induction edges with
  | nil => simp [predecessorsOf, sortIds]
  | cons e edges ih =>
    have hcons (id : String) : (predecessorsOf (e :: edges) id).length =
        (predecessorsOf edges id).length + if e.unitId = id then 1 else 0 := by
      unfold predecessorsOf
      rw [(sortIds_perm _).length_eq, (sortIds_perm _).length_eq, List.length_map, List.length_map, List.filter_cons]
      by_cases he : e.unitId = id <;> simp [he]
    have hone : (ids.map fun id => if e.unitId = id then 1 else 0).sum = ids.count e.unitId := by
      clear ih hnd
      induction ids with
      | nil => rfl
      | cons id ids ih =>
        rw [List.map_cons, List.sum_cons, ih, List.count_cons]
        by_cases he : e.unitId = id
        · simp [he, add_comm]
        · simp [he, Ne.symm he]
    have hcount := List.nodup_iff_count_le_one.mp hnd e.unitId
    simp only [hcons, List.sum_map_add, List.length_cons]
    omega

/-- Of a valid graph there is a list of all units, each after those it depends on. -/
theorem exists_listing (h : Valid units edges) :
    ∃ l, Listing (fun a b => b ∈ predecessorsOf edges a) l ∧ ∀ id ∈ units.map (·.id), id ∈ l := by
  have hnd : (sortIds (units.map (·.id))).Nodup := (sortIds_perm _).nodup_iff.mpr h.ids
  have hpred : ∀ id ∈ sortIds (units.map (·.id)), ∀ p ∈ predecessorsOf edges id, p ∈ sortIds (units.map (·.id)) :=
    fun id _ p hp => mem_sortIds.mpr (h.known _ (mem_predecessorsOf.mp hp)).2
  have hrounds : ((sortIds (units.map (·.id))).map fun id => (predecessorsOf edges id).length + 1).sum <
      units.length + edges.length + 1 := by
    have hdeg := degrees_le hnd edges
    have hlen : (sortIds (units.map (·.id))).length = units.length := by
      rw [(sortIds_perm _).length_eq, List.length_map]
    rw [List.sum_map_add, List.map_const', List.sum_replicate, hlen, nsmul_one]
    simp only [Nat.cast_id]
    omega
  have hstart : Exploring (predecessorsOf edges) (sortIds (units.map (·.id))) []
      ⟨fun id => if (sortIds (units.map (·.id))).contains id then some .WHITE else none, [], []⟩ := by
    refine ⟨.nil, fun id hid => ?_, fun id hid => ?_, (fun id => by simp), nofun, trivial⟩
    · dsimp only at hid
      split at hid <;> cases hid
    · dsimp only at hid
      split at hid <;> cases hid
  have hroots : ∀ id, (if (sortIds (units.map (·.id))).contains id then some Colour.WHITE else none) = some .WHITE →
      id ∈ sortIds (units.map (·.id)) := by
    intro id hid
    split at hid
    · rename_i hmem
      exact List.contains_iff_mem.mp hmem
    · cases hid
  obtain ⟨l, hl, hmem⟩ := searchFrom_none hnd hpred hrounds hstart (fun _ hid => hid) hroots h.noCycle
  exact ⟨l, hl, fun id hid => hmem id (mem_sortIds.mpr hid)⟩

/-! ### The sort -/

section Kahn

variable {s : Sorting}

/-- What becomes of the variables when the dependents of the unit just listed are gone through. -/
theorem foldl_release {dependents : List String} (hnd : dependents.Nodup) (s : Sorting) :
    (dependents.foldl Sorting.release s).order = s.order ∧
      (∀ id, (dependents.foldl Sorting.release s).remaining id = s.remaining id - if id ∈ dependents then 1 else 0) ∧
      (dependents.foldl Sorting.release s).ready.Perm (s.ready ++ dependents.filter fun id => s.remaining id = 1) := by
  induction dependents generalizing s with
  | nil => simp
  | cons d ds ih =>
    obtain ⟨hd, hnd⟩ := List.nodup_cons.mp hnd
    obtain ⟨horder, hremaining, hready⟩ := ih hnd (s.release d)
    have hother (id : String) (hid : id ∈ ds) : (s.release d).remaining id = s.remaining id :=
      Function.update_of_ne (by rintro rfl; exact hd hid) ..
    refine ⟨horder, fun id => ?_, hready.trans ?_⟩
    · rw [List.foldl_cons, hremaining]
      by_cases e : id = d
      · subst e
        simp [Sorting.release, hd]
      · simp [Sorting.release, e]
    · have hfilter : (ds.filter fun id => (s.release d).remaining id = 1) = ds.filter fun id => s.remaining id = 1 :=
        List.filter_congr fun id hid => by rw [hother id hid]
      rw [hfilter, List.filter_cons]
      by_cases h : s.remaining d = 1
      · simp only [Sorting.release, h, sub_self, if_true, decide_true]
        refine ((sortIds_perm _).append_right _).trans ?_
        rw [List.append_assoc, List.singleton_append]
      · have h' : s.remaining d - 1 ≠ 0 := by omega
        simp [Sorting.release, h, h']

/-- Of every unit it is known how many of those it depends on are not listed, and the units that wait for none are ready. -/
structure Sorted (ids : List String) (edges : List GraphEdge) (s : Sorting) : Prop where
  listing : Listing (fun a b => b ∈ predecessorsOf edges a) s.order
  remaining : ∀ id ∈ ids, s.remaining id = (predecessorsOf edges id).countP (· ∉ s.order)
  ready : ∀ id, id ∈ s.ready ↔ id ∈ ids ∧ s.remaining id = 0 ∧ id ∉ s.order
  nodup : (s.order ++ s.ready).Nodup
  known : ∀ id ∈ s.order, id ∈ ids

/-- How many are not listed after one more has been. -/
theorem countP_not_mem_snoc {preds order : List String} {id : String} (hnd : preds.Nodup) (hid : id ∉ order) :
    preds.countP (· ∉ order ++ [id]) + (if id ∈ preds then 1 else 0) = preds.countP (· ∉ order) := by
  induction preds with
  | nil => rfl
  | cons p preds ih =>
    obtain ⟨hp, hnd⟩ := List.nodup_cons.mp hnd
    have := ih hnd
    rw [List.countP_cons, List.countP_cons]
    by_cases e : id = p
    · subst e
      have hlisted : decide (id ∉ order ++ [id]) = false := by simp
      have hunlisted : decide (id ∉ order) = true := by simpa using hid
      rw [if_neg hp] at this
      rw [hlisted, hunlisted, if_pos (List.mem_cons_self ..)]
      simp only [Bool.false_eq_true, if_false, if_true]
      omega
    · have hmem : p ∈ order ++ [id] ↔ p ∈ order := by simp [Ne.symm e]
      simp only [List.mem_cons, e, false_or, hmem]
      omega

/-- A round of the sort. -/
theorem Sorted.round {ids ready : List String} {id : String} (hpred : ∀ a, (predecessorsOf edges a).Nodup)
    (hdep : ∀ a, (dependentsOf edges a).Nodup) (hknown : ∀ e ∈ edges, e.unitId ∈ ids) (h : Sorted ids edges s)
    (hready : s.ready = id :: ready) :
    Sorted ids edges ((dependentsOf edges id).foldl Sorting.release { s with ready, order := s.order ++ [id] }) := by
  obtain ⟨hid, hzero, hnew⟩ := (h.ready id).mp (hready ▸ List.mem_cons_self ..)
  obtain ⟨horder, hremaining, hperm⟩ := foldl_release (hdep id) { s with ready, order := s.order ++ [id] }
  have hnd := h.nodup
  rw [hready] at hnd
  have hwait : ∀ b ∈ predecessorsOf edges id, b ∈ s.order := by
    intro b hb
    have hcount := h.remaining id hid
    rw [hzero, eq_comm, Nat.cast_eq_zero, List.countP_eq_zero] at hcount
    simpa using hcount b hb
  -- a dependent of the unit listed was waiting for it
  have hdepends : ∀ u ∈ dependentsOf edges id, u ∈ ids ∧ 1 ≤ s.remaining u ∧ u ∉ s.order ++ [id] := by
    intro u hu
    have hedge := mem_dependentsOf.mp hu
    have huIds := hknown _ hedge
    have hmem : id ∈ predecessorsOf edges u := mem_predecessorsOf.mpr hedge
    have hpos : 0 < (predecessorsOf edges u).countP (· ∉ s.order) :=
      List.countP_pos_iff.mpr ⟨id, hmem, by simpa using hnew⟩
    have := h.remaining u huIds
    refine ⟨huIds, by omega, fun hlisted => ?_⟩
    rcases List.mem_append.mp hlisted with hold | hself
    · exact hnew (h.listing.closed _ hold _ hmem)
    · obtain rfl := List.mem_singleton.mp hself
      omega
  refine ⟨?_, fun u hu => ?_, fun u => ?_, ?_, ?_⟩
  · rw [horder]
    exact h.listing.snoc hwait
  · rw [hremaining, horder]
    have hsnoc := countP_not_mem_snoc (hpred u) hnew
    have hold := h.remaining u hu
    have hiff : u ∈ dependentsOf edges id ↔ id ∈ predecessorsOf edges u := mem_dependentsOf.trans mem_predecessorsOf.symm
    by_cases hmem : id ∈ predecessorsOf edges u
    · rw [if_pos hmem] at hsnoc
      rw [if_pos (hiff.mpr hmem)]
      dsimp only
      omega
    · rw [if_neg hmem] at hsnoc
      rw [if_neg (mt hiff.mp hmem)]
      dsimp only
      omega
  · rw [hperm.mem_iff, hremaining, horder, List.mem_append, List.mem_filter]
    have hu := h.ready u
    rw [hready, List.mem_cons] at hu
    have hself : id ∉ ready := (List.nodup_cons.mp (List.nodup_append.mp hnd).2.1).1
    simp only [List.mem_append, List.mem_singleton, decide_eq_true_eq]
    constructor
    · rintro (hold | ⟨hdep, hone⟩)
      · obtain ⟨huIds, huZero, huNew⟩ := hu.mp (Or.inr hold)
        have hne : u ≠ id := by
          rintro rfl
          exact hself hold
        have hno : u ∉ dependentsOf edges id := fun hdep => by
          have := (hdepends u hdep).2.1
          omega
        rw [if_neg hno, sub_zero]
        exact ⟨huIds, huZero, not_or.mpr ⟨huNew, hne⟩⟩
      · obtain ⟨huIds, -, huNew⟩ := hdepends u hdep
        rw [if_pos hdep]
        exact ⟨huIds, by omega, by simpa using huNew⟩
    · rintro ⟨huIds, huZero, huNew⟩
      obtain ⟨huOrder, hne⟩ := not_or.mp huNew
      split at huZero
      · rename_i hdep
        exact Or.inr ⟨hdep, by omega⟩
      · exact Or.inl ((hu.mpr ⟨huIds, by omega, huOrder⟩).resolve_left hne)
  · rw [horder]
    refine (hperm.append_left _).nodup_iff.mpr ?_
    rw [← List.append_assoc, List.append_assoc s.order, List.singleton_append, List.nodup_append]
    refine ⟨hnd, (hdep id).filter _, fun a ha b hb e => ?_⟩
    subst e
    obtain ⟨hadep, haone⟩ := List.mem_filter.mp hb
    obtain ⟨-, -, hanew⟩ := hdepends a hadep
    rcases List.mem_append.mp ha with ha | ha
    · exact hanew (List.mem_append_left _ ha)
    · have := ((h.ready a).mp (hready ▸ ha)).2.1
      simp only [decide_eq_true_eq] at haone
      omega
  · rw [horder]
    intro u hu
    rcases List.mem_append.mp hu with hu | hu
    · exact h.known u hu
    · obtain rfl := List.mem_singleton.mp hu
      exact hid

/-- The sort ends because nothing is ready, or because it has listed as many units as there are. -/
theorem Sorted.run {ids : List String} (hpred : ∀ a, (predecessorsOf edges a).Nodup) (hdep : ∀ a, (dependentsOf edges a).Nodup)
    (hknown : ∀ e ∈ edges, e.unitId ∈ ids) {n : ℕ} (h : Sorted ids edges s)
    (hrounds : ids.length ≤ s.order.length + n) :
    Sorted ids edges (Sorting.run edges n s) ∧
      ((Sorting.run edges n s).ready = [] ∨ ids.length ≤ (Sorting.run edges n s).order.length) := by
  induction n generalizing s with
  | zero => exact ⟨h, Or.inr hrounds⟩
  | succ n ih =>
    unfold Sorting.run
    split
    · rename_i hready
      exact ⟨h, Or.inl hready⟩
    · rename_i id ready hready
      refine ih (h.round hpred hdep hknown hready) ?_
      rw [(foldl_release (hdep id) _).1, List.length_append, List.length_singleton]
      omega

/-- What holds at the start and is kept by every round holds at the end. -/
theorem Sorting.run_rule {P : Sorting → Prop} {n : ℕ} (hround : ∀ s id ready, P s → s.ready = id :: ready →
    P ((dependentsOf edges id).foldl Sorting.release { s with ready, order := s.order ++ [id] })) (h : P s) :
    P (Sorting.run edges n s) := by
  induction n generalizing s with
  | zero => exact h
  | succ n ih =>
    unfold Sorting.run
    split
    · exact h
    · exact ih (hround _ _ _ h (by assumption))

/-- The variables at the start of the sort. -/
def Sorting.start (units : List GraphUnit) (edges : List GraphEdge) : Sorting :=
  let remaining (id : String) : ℤ := if (units.map (·.id)).contains id then (predecessorsOf edges id).length else 0
  ⟨remaining, sortIds ((units.map (·.id)).filter fun id => remaining id = 0), []⟩

theorem sorted_start (hunique : (units.map (·.id)).Nodup) : Sorted (units.map (·.id)) edges (.start units edges) := by
  refine ⟨.nil, fun id hid => ?_, fun id => ?_, ?_, nofun⟩
  · dsimp only [Sorting.start]
    rw [if_pos (List.contains_iff_mem.mpr hid)]
    simp
  · dsimp only [Sorting.start]
    rw [mem_sortIds, List.mem_filter]
    simp
  · exact (sortIds_perm _).nodup_iff.mpr (hunique.filter _)

end Kahn

/-- What the order is when the graph is accepted. -/
theorem topologicalOrder_eq (h : validateExecutionGraph units edges = .ok ()) :
    topologicalOrder units edges = .ok (Sorting.run edges units.length (.start units edges)).order := by
  unfold topologicalOrder
  simp only [h, bind, Except.bind, pure, Except.pure]
  rfl

theorem validate_of_topologicalOrder {order : List String} (h : topologicalOrder units edges = .ok order) :
    validateExecutionGraph units edges = .ok () := by
  unfold topologicalOrder at h
  rcases hok : validateExecutionGraph units edges with e | u <;> simp only [hok, bind, Except.bind] at h
  · cases h
  · rfl

/-- **The order of a valid graph** lists every unit once, after those it depends on. -/
theorem topologicalOrder_ok {order : List String} (h : topologicalOrder units edges = .ok order) :
    Valid units edges ∧ Listing (fun a b => b ∈ predecessorsOf edges a) order ∧ order.Perm (units.map (·.id)) := by
  have hok := validate_of_topologicalOrder h
  rw [topologicalOrder_eq hok, Except.ok.injEq] at h
  have hvalid := valid_of_ok hok
  have hpred := predecessorsOf_nodup hvalid.once
  have hknown : ∀ e ∈ edges, e.unitId ∈ units.map (·.id) := fun e he => (hvalid.known e he).1
  obtain ⟨l, hl, hall⟩ := exists_listing hvalid
  subst h
  obtain ⟨hsorted, hend⟩ := (sorted_start hvalid.ids).run hpred (dependentsOf_nodup hvalid.once) hknown (n := units.length)
    (by simp [Sorting.start])
  generalize Sorting.run edges units.length _ = s at hsorted hend ⊢
  refine ⟨hvalid, hsorted.listing, ?_⟩
  have hnd := (List.nodup_append.mp hsorted.nodup).1
  rcases hend with hready | hlen
  · -- no unit is left that waits for none
    have hlisted : ∀ id ∈ l, id ∈ units.map (·.id) → id ∈ s.order := by
      refine hl.rule fun id _ hdeps hid => by_contra fun hnew => ?_
      have hzero := hsorted.remaining id hid
      have hnone : ∀ b ∈ predecessorsOf edges id, b ∈ s.order := fun b hb =>
        (hdeps b hb).2 (hvalid.known _ (mem_predecessorsOf.mp hb)).2
      rw [List.countP_eq_zero.mpr fun b hb => by simpa using hnone b hb] at hzero
      have hmem := (hsorted.ready id).mpr ⟨hid, hzero, hnew⟩
      rw [hready] at hmem
      cases hmem
    exact (List.perm_ext_iff_of_nodup hnd hvalid.ids).mpr fun id =>
      ⟨hsorted.known id, fun hid => hlisted id (hall id hid) hid⟩
  · exact (List.subperm_of_subset hnd hsorted.known).perm_of_length_le hlen

end WebAudit.Planning
