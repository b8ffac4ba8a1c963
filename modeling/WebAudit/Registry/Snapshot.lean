import WebAudit.Registry.Permission
import WebAudit.Lib.Runs

/-!
# The capabilities of a scan

`services/registry/snapshot.ts` resolves the capabilities of a scan once, when it starts (`resolveSnapshot`). A worker
resolves them in each phase: it reads what each module requires, reconfirms, reads what is enabled, and loads code that
its process may have loaded before. Operators change rows and bundles meanwhile.

Here are the snapshot, and the changes; `Registry.Drift` has the runs.
-/

namespace WebAudit.Registry

open WebAudit.Lib WebAudit.Lib.Uri WebAudit.Scans WebAudit.Runner

/-! ### The snapshot -/

inductive SnapshotStatus where
  | ELIGIBLE
  | BLOCKED_CONTROL_LEVEL
  | BLOCKED_PLAN
  | NOT_APPLICABLE_INPUT
  deriving DecidableEq

structure SnapshotContext where
  planId : Text
  controlLevel : ControlLevel
  hasCode : Bool
  hasScreenshot : Bool
  requestedModules : List ModuleType
  deriving DecidableEq

structure SnapshotEntry where
  capabilityId : Text
  module : ModuleType
  status : SnapshotStatus
  /-- What would unlock it. -/
  requiredControlLevel : Option ControlLevel
  deriving DecidableEq

def statusFor (row : CapabilityRow) (context : SnapshotContext) : SnapshotStatus :=
  if row.allows context.planId = false then .BLOCKED_PLAN
  else if row.requiresCode && !context.hasCode then .NOT_APPLICABLE_INPUT
  else if row.requiresScreenshot && !context.hasScreenshot then .NOT_APPLICABLE_INPUT
  else if controlLevelRank context.controlLevel < controlLevelRank row.requiredControlLevel then .BLOCKED_CONTROL_LEVEL
  else .ELIGIBLE

def Disk.ids (disk : Disk) : List Text := disk.vendored.map (·.id) ++ disk.installed.map (·.id)

/-- `CapabilityRegistry.build`: the rows whose bundles are on disk. -/
def registryOf (rows : List CapabilityRow) (disk : Disk) : List CapabilityRow := rows.filter fun row => disk.ids.contains row.id

def entryOf (context : SnapshotContext) (row : CapabilityRow) : SnapshotEntry :=
  let status := statusFor row context
  ⟨row.id, row.module, status, if status = .BLOCKED_CONTROL_LEVEL then some row.requiredControlLevel else none⟩

/-- Every module, where none is requested; disabled rows are left out. -/
def resolveSnapshot (registry : List CapabilityRow) (context : SnapshotContext) : List SnapshotEntry :=
  (if context.requestedModules.isEmpty then allAreas else context.requestedModules).flatMap fun module =>
    (registry.filter fun row => row.module = module ∧ row.isEnabled = true).map (entryOf context)

def eligibleEntries (entries : List SnapshotEntry) (module : ModuleType) : List SnapshotEntry :=
  entries.filter fun entry => entry.status = .ELIGIBLE ∧ entry.module = module

/-! ### What operators change -/

inductive Change where
  | setCapabilityEnabled (id : Text) (isEnabled : Bool)
  | setCapabilityPlanRestrictions (id : Text) (planIds : List Text)
  /-- What a manifest says of itself: a row that is there keeps its switch and its plans, and a new one is enabled. -/
  | reconcile (id : Text) (module : ModuleType) (requiresCode requiresScreenshot : Bool) (requiredControlLevel : ControlLevel)
  | removeRow (id : Text)
  | writeBundle (bundle : InstalledBundle)
  | removeBundle (id : Text)
  deriving DecidableEq

namespace CapabilityTable

variable (table : CapabilityTable)

def update (id : Text) (f : CapabilityRow → CapabilityRow) : List CapabilityRow := table.rows.map fun row => if row.id = id then { f row with id } else row

theorem ids_update (id : Text) (f : CapabilityRow → CapabilityRow) : (table.update id f).map (·.id) = table.rows.map (·.id) := by
  unfold update
  rw [List.map_map]
  refine List.map_congr_left fun row _ => ?_
  rw [Function.comp_apply]
  split
  · next h => exact h.symm
  · rfl

def updated (id : Text) (f : CapabilityRow → CapabilityRow) : CapabilityTable where
  rows := table.update id f
  ids_nodup := by
    rw [ids_update]
    exact table.ids_nodup

def inserted (row : CapabilityRow) (h : row.id ∉ table.rows.map (·.id)) : CapabilityTable where
  rows := table.rows ++ [row]
  ids_nodup := by
    rw [List.map_append, List.nodup_append]
    refine ⟨table.ids_nodup, List.nodup_singleton _, fun id hid id' hid' heq => h ?_⟩
    obtain rfl : id' = row.id := List.mem_singleton.mp hid'
    exact heq ▸ hid

def removed (id : Text) : CapabilityTable where
  rows := table.rows.filter (·.id ≠ id)
  ids_nodup := table.ids_nodup.sublist (List.filter_sublist.map _)

def change : Change → CapabilityTable
  | .setCapabilityEnabled id isEnabled => table.updated id fun row => { row with isEnabled }
  | .setCapabilityPlanRestrictions id planIds => table.updated id fun row => { row with restrictedToPlans := planIds }
  | .reconcile id module requiresCode requiresScreenshot requiredControlLevel =>
    if h : id ∈ table.rows.map (·.id) then
      table.updated id fun row => { row with module, requiresCode, requiresScreenshot, requiredControlLevel }
    else table.inserted ⟨id, module, requiresCode, requiresScreenshot, requiredControlLevel, true, []⟩ h
  | .removeRow id => table.removed id
  | .writeBundle _ | .removeBundle _ => table

end CapabilityTable

def changeInstalled (installed : List InstalledBundle) : Change → List InstalledBundle
  | .writeBundle bundle => installed.filter (·.id ≠ bundle.id) ++ [bundle]
  | .removeBundle id => installed.filter (·.id ≠ id)
  | _ => installed

end WebAudit.Registry
