import Mathlib.Data.List.Lex
import Mathlib.Data.List.Sort

/-!
# The rules of an execution graph

`services/planning/graph.ts`: what makes a list of units and edges a graph that may be stored,
the search for a cycle, and the order in which units come after those they depend on.

## The model

* A `Map` is a function to `Option`, or a function with the default that the code reads with `??`.
* A loop takes the number of rounds it may make; `Planning.Order` shows that they are enough.
* Ids are sorted as JavaScript sorts strings, by their UTF-16 code units.
* A class that does not exist cannot be written down, so `UNKNOWN_CLASS` is never thrown.
-/

namespace WebAudit.Planning

/-! ### Units and edges -/

inductive ExecutionUnitClass where
  | PASSIVE_HTTP
  | SOURCE_STATIC
  | BROWSER
  | CRAWLER
  | SOURCE_EXECUTION
  | ACTIVE_SECURITY
  | AUTHENTICATED_WORKFLOW
  | LOAD_CAPACITY
  | TELEMETRY
  deriving DecidableEq

/-- Passive units never need an authorization. -/
def isPassiveClass : ExecutionUnitClass → Bool
  | .PASSIVE_HTTP | .SOURCE_STATIC | .TELEMETRY => true
  | _ => false

structure GraphUnit where
  id : String
  executionUnitClass : ExecutionUnitClass
  deriving DecidableEq

/-- `unitId` depends on `dependsOnUnitId`. -/
structure GraphEdge where
  unitId : String
  dependsOnUnitId : String
  deriving DecidableEq

inductive PlanGraphErrorCode where
  | EMPTY_UNIT_ID
  | DUPLICATE_UNIT
  | UNKNOWN_CLASS
  | DANGLING_EDGE
  | SELF_DEPENDENCY
  | DUPLICATE_EDGE
  | CYCLE
  deriving DecidableEq

structure PlanGraphError where
  code : PlanGraphErrorCode
  message : String
  /-- One cycle, in dependency order, the first id repeated at the end. -/
  cycle : Option (List String)
  deriving DecidableEq

/-! ### Strings in order -/

/-- The UTF-16 code units of a character. -/
def utf16Units (c : Char) : List ℕ :=
  if c.toNat < 0x10000 then [c.toNat]
  else [0xD800 + (c.toNat - 0x10000) / 0x400, 0xDC00 + (c.toNat - 0x10000) % 0x400]

/-- The code units of a string. -/
def codeUnits (s : String) : List ℕ := s.toList.flatMap utf16Units

/-- `sort()` of a list of strings. -/
def sortIds (ids : List String) : List String := ids.insertionSort fun s t => codeUnits s ≤ codeUnits t

theorem sortIds_perm (ids : List String) : (sortIds ids).Perm ids := List.perm_insertionSort _ ids

@[simp] theorem mem_sortIds {ids : List String} {id : String} : id ∈ sortIds ids ↔ id ∈ ids := (sortIds_perm ids).mem_iff

/-! ### Neighbours -/

/-- The units that a unit depends on. -/
def predecessorsOf (edges : List GraphEdge) (id : String) : List String :=
  sortIds ((edges.filter (·.unitId = id)).map (·.dependsOnUnitId))

/-- The units that depend on a unit. -/
def dependentsOf (edges : List GraphEdge) (id : String) : List String :=
  sortIds ((edges.filter (·.dependsOnUnitId = id)).map (·.unitId))

/-! ### The search for a cycle -/

inductive Colour where
  | WHITE
  | GREY
  | BLACK
  deriving DecidableEq

structure Frame where
  id : String
  next : ℕ
  deriving DecidableEq

/-- The variables of the search. The top of the stack is its head. -/
structure Search where
  colour : String → Option Colour
  path : List String
  stack : List Frame

/-- What one round of the inner loop comes to. -/
inductive Round where
  | done
  | cycle (ids : List String)
  | next (s : Search)

/-- One round of the inner loop. -/
def Search.step (predecessors : String → List String) (s : Search) : Round :=
  match s.stack with
  | [] => .done
  | frame :: rest =>
    match (predecessors frame.id)[frame.next]? with
    | none =>
      .next { colour := Function.update s.colour frame.id (some .BLACK), path := s.path.dropLast, stack := rest }
    | some target =>
      let stack := { frame with next := frame.next + 1 } :: rest
      match s.colour target with
      | some .GREY => .cycle (s.path.drop (s.path.idxOf target) ++ [target])
      | some .WHITE =>
        .next { colour := Function.update s.colour target (some .GREY), path := s.path ++ [target], stack := ⟨target, 0⟩ :: stack }
      | _ => .next { s with stack := stack }

/-- The inner loop: the cycle it finds, or the colours it leaves. -/
def explore (predecessors : String → List String) : ℕ → Search → Option (List String ⊕ (String → Option Colour))
  | 0, _ => none
  | rounds + 1, s =>
    match s.step predecessors with
    | .done => some (.inr s.colour)
    | .cycle ids => some (.inl ids)
    | .next s' => explore predecessors rounds s'

/-- The outer loop. -/
def searchFrom (predecessors : String → List String) (rounds : ℕ) :
    List String → (String → Option Colour) → Option (List String)
  | [], _ => none
  | root :: roots, colour =>
    if colour root = some .WHITE then
      match explore predecessors rounds ⟨Function.update colour root (some .GREY), [root], [⟨root, 0⟩]⟩ with
      | some (.inl ids) => some ids
      | some (.inr colour') => searchFrom predecessors rounds roots colour'
      | none => none
    else searchFrom predecessors rounds roots colour

/-- A cycle, if there is one. -/
def findCycle (units : List GraphUnit) (edges : List GraphEdge) : Option (List String) :=
  let ids := sortIds (units.map (·.id))
  searchFrom (predecessorsOf edges) (units.length + edges.length + 1) ids
    fun id => if ids.contains id then some .WHITE else none

/-! ### Validation -/

/-- The checks of the units, `ids` being those seen before. -/
def validateUnits : List String → List GraphUnit → Except PlanGraphError (List String)
  | ids, [] => .ok ids
  | ids, unit :: units =>
    if unit.id = "" then .error ⟨.EMPTY_UNIT_ID, "a unit has an empty id", none⟩
    else if ids.contains unit.id then .error ⟨.DUPLICATE_UNIT, "duplicate unit " ++ unit.id, none⟩
    else validateUnits (ids ++ [unit.id]) units

/-- The checks of the edges, `seen` being the keys of those before. -/
def validateEdges (ids : List String) : List String → List GraphEdge → Except PlanGraphError Unit
  | _, [] => .ok ()
  | seen, edge :: edges =>
    let arrow := edge.unitId ++ " -> " ++ edge.dependsOnUnitId
    let key := edge.unitId ++ "\x00" ++ edge.dependsOnUnitId
    if !ids.contains edge.unitId || !ids.contains edge.dependsOnUnitId then
      .error ⟨.DANGLING_EDGE, "edge " ++ arrow ++ " references a unit outside this plan", none⟩
    else if edge.unitId = edge.dependsOnUnitId then
      .error ⟨.SELF_DEPENDENCY, "unit " ++ edge.unitId ++ " depends on itself", none⟩
    else if seen.contains key then .error ⟨.DUPLICATE_EDGE, "duplicate edge " ++ arrow, none⟩
    else validateEdges ids (seen ++ [key]) edges

/-- What a graph has to pass before anything is stored. -/
def validateExecutionGraph (units : List GraphUnit) (edges : List GraphEdge) : Except PlanGraphError Unit := do
  let ids ← validateUnits [] units
  validateEdges ids [] edges
  match findCycle units edges with
  | some cycle => .error ⟨.CYCLE, "cyclic dependency graph: " ++ String.intercalate " -> " cycle, some cycle⟩
  | none => .ok ()

/-! ### The order of the units -/

/-- The variables of the sort. -/
structure Sorting where
  remaining : String → ℤ
  ready : List String
  order : List String

/-- A unit that the last unit listed may have been holding up. -/
def Sorting.release (s : Sorting) (dependent : String) : Sorting :=
  let left := s.remaining dependent - 1
  { s with
    remaining := Function.update s.remaining dependent left
    ready := if left = 0 then sortIds (s.ready ++ [dependent]) else s.ready }

/-- The loop of the sort. -/
def Sorting.run (edges : List GraphEdge) : ℕ → Sorting → Sorting
  | 0, s => s
  | rounds + 1, s =>
    match s.ready with
    | [] => s
    | id :: ready =>
      run edges rounds ((dependentsOf edges id).foldl Sorting.release { s with ready, order := s.order ++ [id] })

/-- Predecessors first, and of those that could come next the one with the least id. -/
def topologicalOrder (units : List GraphUnit) (edges : List GraphEdge) : Except PlanGraphError (List String) := do
  validateExecutionGraph units edges
  let remaining (id : String) : ℤ := if (units.map (·.id)).contains id then (predecessorsOf edges id).length else 0
  let ready := sortIds ((units.map (·.id)).filter fun id => remaining id = 0)
  pure (Sorting.run edges units.length ⟨remaining, ready, []⟩).order

end WebAudit.Planning
