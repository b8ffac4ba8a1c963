import WebAudit.Runner.Layers

/-!
# Capabilities, on disk and in the registry

A row of `Capability` says whether a capability is enabled, what it requires of a target and which plans it is restricted
to (`CapabilityPlan`). The code is on disk: vendored bundles are imported, and installed ones are dispatched to the
sandbox (`orchestrator/capability-loader.ts`). The worker reads rows and loads code by module, and puts the two together
by id alone (`orchestrator/orchestrator.ts`).
-/

namespace WebAudit.Registry

open WebAudit.Lib.Uri WebAudit.Scans WebAudit.Runner

/-! ### The registry -/

structure CapabilityRow where
  id : Text
  module : ModuleType
  requiresCode : Bool
  requiresScreenshot : Bool
  requiredControlLevel : ControlLevel
  isEnabled : Bool
  /-- The plans that it is restricted to; empty is no restriction. -/
  restrictedToPlans : List Text
  deriving DecidableEq

/-- The rows; an id is a primary key. -/
structure CapabilityTable where
  rows : List CapabilityRow
  ids_nodup : (rows.map (·.id)).Nodup

/-- Each id is that of one row. -/
theorem CapabilityTable.eq_of_id_eq (table : CapabilityTable) {row row' : CapabilityRow} (h : row ∈ table.rows) (h' : row' ∈ table.rows)
    (hid : row.id = row'.id) : row = row' :=
  List.inj_on_of_nodup_map table.ids_nodup h h' hid

/-- A plan may use the capability. -/
def CapabilityRow.allows (row : CapabilityRow) (planId : Text) : Bool := row.restrictedToPlans.isEmpty || row.restrictedToPlans.contains planId

/-! ### The disk -/

/-- A capability as code, apart from what its calls answer. -/
structure CapabilityCode where
  id : Text
  module : ModuleType
  runsCodeLayer : Bool
  getSystemPromptAddition : Bool
  getContextData : Bool
  checkNamespaces : Option (List Text)
  reverify : Bool
  deriving DecidableEq

structure VendoredBundle where
  /-- Its manifest's, and so is the module. -/
  id : Text
  module : ModuleType
  /-- The default export, if it can be imported. -/
  code : Option CapabilityCode
  deriving DecidableEq

structure InstalledBundle where
  id : Text
  module : ModuleType
  /-- The entrypoint can be read. -/
  readable : Bool
  deriving DecidableEq

structure Disk where
  vendored : List VendoredBundle
  installed : List InstalledBundle
  deriving DecidableEq

def makeSandboxedCode (bundle : InstalledBundle) : CapabilityCode :=
  ⟨bundle.id, bundle.module, true, false, false, none, false⟩

def loadVendored (module : ModuleType) (bundle : VendoredBundle) : Option CapabilityCode :=
  if bundle.module = module then bundle.code.filter (·.module = module) else none

def loadInstalled (module : ModuleType) (bundle : InstalledBundle) : Option CapabilityCode :=
  if bundle.module = module ∧ bundle.readable = true then some (makeSandboxedCode bundle) else none

/-- Vendored before installed. -/
def loadModuleCapabilities (disk : Disk) (module : ModuleType) : List CapabilityCode :=
  disk.vendored.filterMap (loadVendored module) ++ disk.installed.filterMap (loadInstalled module)

/-- All of them, where no set is given. -/
def loadCapabilities (loaded : List CapabilityCode) (enabledIds : Option (List Text)) : List CapabilityCode :=
  match enabledIds with
  | none => loaded
  | some enabledIds => loaded.filter fun capability => enabledIds.contains capability.id

/-! ### What is read of the registry -/

section Reads

variable (rows : List CapabilityRow) (module : ModuleType)

/-- By id; disabled ones too. -/
def requiredControlLevelsFor : List (Text × ControlLevel) :=
  (rows.filter (·.module = module)).map fun row => (row.id, row.requiredControlLevel)

def enabledCapabilityIdsFor : List Text := (rows.filter fun row => row.module = module ∧ row.isEnabled = true).map (·.id)

end Reads

/-- `Math.max` of what the capabilities of a phase require is not that of `NONE`. -/
def anyRequired (required : List (Text × ControlLevel)) : Bool := required.any fun p => 0 < controlLevelRank p.2

/-- The phase's level. The target is probed only where something is required; `none` is that this throws. -/
def resolvePhaseControlLevel (required : List (Text × ControlLevel)) (reconfirmed : Option ControlLevel) : Option ControlLevel :=
  if anyRequired required then reconfirmed else some .NONE

/-! ### Calls -/

inductive EntryPoint where
  | canRun
  | runCodeLayer
  | prompt
  | reverify
  deriving DecidableEq

structure Call where
  capability : CapabilityCode
  entry : EntryPoint
  deriving DecidableEq

/-- What the calls of a capability answer. -/
structure Answers where
  canRun : Contained Bool
  runCodeLayer : Contained ResultView
  getSystemPromptAddition : Option View
  getContextData : List CapabilityFinding → Option View

/-- The capability, as it behaves. -/
def CapabilityCode.answering (code : CapabilityCode) (answers : Answers) : Capability where
  id := code.id
  canRun := answers.canRun
  runCodeLayer := if code.runsCodeLayer then some answers.runCodeLayer else none
  getSystemPromptAddition := if code.getSystemPromptAddition then some answers.getSystemPromptAddition else none
  getContextData := if code.getContextData then some answers.getContextData else none

/-- The code requires more than the level. -/
def CapabilityCode.isGated (level : ControlLevel) (required : Text → Option ControlLevel) (code : CapabilityCode) : Bool :=
  controlLevelRank level < controlLevelRank ((required code.id).getD .NONE)

theorem isGated_answering {level : ControlLevel} {required : Text → Option ControlLevel} {code : CapabilityCode} {answers : Answers} :
    isGated level required (code.answering answers) = code.isGated level required := rfl

section Calls

variable (answers : CapabilityCode → Answers) (level : ControlLevel) (required : Text → Option ControlLevel)

def resolved (code : CapabilityCode) : Option Resolved := resolveOne level required (code.answering (answers code))

def isApplicable (code : CapabilityCode) : Bool :=
  match resolved answers level required code with
  | some .applicable => true
  | _ => false

/-- Those whose `canRun` is called: the others are gated, or come after one whose answer throws. -/
def asked : List CapabilityCode → List CapabilityCode
  | [] => []
  | code :: rest =>
    let others := if (resolved answers level required code).isSome then asked rest else []
    if isGated level required (code.answering (answers code)) then others else code :: others

/-- Every call that `runModule` makes of these capabilities. -/
def runModuleCalls (timeoutMs : ℕ) (capabilities : List CapabilityCode) : List Call :=
  let applicable := capabilities.filter (isApplicable answers level required)
  (asked answers level required capabilities).map (⟨·, .canRun⟩) ++
    if capabilities.all fun code => (resolved answers level required code).isSome then
      (applicable.filter (·.runsCodeLayer)).map (⟨·, .runCodeLayer⟩) ++
        if (runCodeLayer timeoutMs (applicable.map fun code => code.answering (answers code))).isSome then
          (applicable.filter fun code => code.getSystemPromptAddition || code.getContextData).map (⟨·, .prompt⟩)
        else []
    else []

end Calls

/-! ### A check again -/

/-- `checkId.split('.')[0]`. -/
def namespaceOf (checkId : Text) : Text := checkId.takeWhile (· ≠ dot)

def capabilityIdForCheck (checkId : Text) (capabilities : List CapabilityCode) : Option Text :=
  (capabilities.find? fun c => (c.checkNamespaces.getD []).contains (namespaceOf checkId)).map (·.id)

def resolveReverifyCapability (loaded : List CapabilityCode) (checkId : Text) : Option CapabilityCode :=
  let capabilities := loadCapabilities loaded none
  (capabilityIdForCheck checkId capabilities).bind fun wantedId => (capabilities.find? (·.id = wantedId)).filter (·.reverify)

end WebAudit.Registry
