import WebAudit.Registry.Capabilities

/-!
# What a check may be called for

A worker calls capabilities in the jobs of a phase and when an issue is checked again. Each call should be of one that is
enabled, that the user's plan includes, and that requires no more of the target than the job has proved (`Permitted`). A
phase's job asks for the first and the last; nothing asks for the plan, and a check again asks for nothing.
-/

namespace WebAudit.Registry

open WebAudit.Lib.Uri WebAudit.Scans WebAudit.Runner

/-- What a worker finds: the registry, the disk, and the user's effective plan. -/
structure World where
  table : CapabilityTable
  disk : Disk
  planId : Text

inductive Job where
  | phase (modules : List ModuleType)
  /-- An issue of a module is checked again. -/
  | reverify (module : ModuleType) (checkId : Text)
  deriving DecidableEq

namespace World

variable (w : World) (reconfirmed : Option ControlLevel)

def phaseRequired (modules : List ModuleType) : List (Text × ControlLevel) := modules.flatMap (requiredControlLevelsFor w.table.rows)

def requiredOf (module : ModuleType) (id : Text) : Option ControlLevel := (requiredControlLevelsFor w.table.rows module).lookup id

/-- The capabilities that a module is run with. -/
def enabledOf (module : ModuleType) : List CapabilityCode :=
  loadCapabilities (loadModuleCapabilities w.disk module) (some (enabledCapabilityIdsFor w.table.rows module))

/-- The calls of a job; `reconfirmed` is what a live reconfirmation answers, if it does not throw. -/
def calls (answers : ModuleType → CapabilityCode → Answers) (timeoutMs : ℕ) : Job → List Call
  | .phase modules =>
    match resolvePhaseControlLevel (w.phaseRequired modules) reconfirmed with
    | none => []
    | some level => modules.flatMap fun module => runModuleCalls (answers module) level (w.requiredOf module) timeoutMs (w.enabledOf module)
  | .reverify module checkId =>
    (resolveReverifyCapability (loadModuleCapabilities w.disk module) checkId).toList.map (⟨·, .reverify⟩)

/-- What a job has proved of the target: nothing, where it made no live reconfirmation. -/
def proved : Job → ControlLevel
  | .phase modules => if anyRequired (w.phaseRequired modules) then reconfirmed.getD .NONE else .NONE
  | .reverify _ _ => .NONE

structure Permitted (proved : ControlLevel) (call : Call) (row : CapabilityRow) : Prop where
  mem : row ∈ w.table.rows
  id : row.id = call.capability.id
  enabled : row.isEnabled = true
  plan : row.allows w.planId = true
  level : controlLevelRank row.requiredControlLevel ≤ controlLevelRank proved

/-- Whatever the capabilities answer, every call of the job is permitted. -/
def CallsPermitted (job : Job) : Prop :=
  ∀ answers timeoutMs, ∀ call ∈ w.calls reconfirmed answers timeoutMs job, ∃ row, w.Permitted (w.proved reconfirmed job) call row

/-- The user's plan includes every capability that the job comes to call; and one that is called to check again is
enabled, and requires nothing. -/
def Within : Job → Prop
  | .phase modules => ∀ level, resolvePhaseControlLevel (w.phaseRequired modules) reconfirmed = some level →
    ∀ row ∈ w.table.rows, row.module ∈ modules → row.isEnabled = true → controlLevelRank row.requiredControlLevel ≤ controlLevelRank level →
      (∃ code ∈ loadModuleCapabilities w.disk row.module, code.id = row.id) → row.allows w.planId = true
  | .reverify module checkId => ∀ code, resolveReverifyCapability (loadModuleCapabilities w.disk module) checkId = some code →
    ∃ row ∈ w.table.rows, row.id = code.id ∧ row.isEnabled = true ∧ row.allows w.planId = true ∧ row.requiredControlLevel = .NONE

end World

/-! ### What a run of a module calls -/

section Calls

variable {answers : CapabilityCode → Answers} {level : ControlLevel} {required : Text → Option ControlLevel} {timeoutMs : ℕ}
  {capabilities : List CapabilityCode} {code : CapabilityCode} {call : Call}

theorem mem_of_mem_asked (h : code ∈ asked answers level required capabilities) :
    code ∈ capabilities ∧ isGated level required (code.answering (answers code)) = false := by
  induction capabilities with
  | nil => cases h
  | cons first rest ih =>
    unfold asked at h
    dsimp only at h
    have hothers : code ∈ (if (resolved answers level required first).isSome = true then asked answers level required rest else []) →
        code ∈ first :: rest ∧ isGated level required (code.answering (answers code)) = false := by
      intro hmem
      split at hmem
      · exact ⟨List.mem_cons_of_mem _ (ih hmem).1, (ih hmem).2⟩
      · cases hmem
    split at h
    · exact hothers h
    · next hgated =>
      rcases List.mem_cons.mp h with rfl | h
      · exact ⟨List.mem_cons_self, Bool.eq_false_iff.mpr hgated⟩
      · exact hothers h

theorem not_gated_of_isApplicable (h : isApplicable answers level required code = true) :
    isGated level required (code.answering (answers code)) = false := by
  refine Bool.eq_false_iff.mpr fun hgated => ?_
  unfold isApplicable resolved resolveOne at h
  rw [if_pos hgated] at h
  cases h

/-- **Every call of a run** is of a capability that it was given, and that is not gated. -/
theorem mem_runModuleCalls (h : call ∈ runModuleCalls answers level required timeoutMs capabilities) :
    call.capability ∈ capabilities ∧ isGated level required (call.capability.answering (answers call.capability)) = false := by
  have happlicable (p : CapabilityCode → Bool) (entry : EntryPoint)
      (hmem : call ∈ ((capabilities.filter (isApplicable answers level required)).filter p).map (⟨·, entry⟩)) :
      call.capability ∈ capabilities ∧ isGated level required (call.capability.answering (answers call.capability)) = false := by
    obtain ⟨code, hcode, rfl⟩ := List.mem_map.mp hmem
    obtain ⟨hcode, happlies⟩ := List.mem_filter.mp (List.mem_of_mem_filter hcode)
    exact ⟨hcode, not_gated_of_isApplicable happlies⟩
  unfold runModuleCalls at h
  rcases List.mem_append.mp h with h | h
  · obtain ⟨code, hcode, rfl⟩ := List.mem_map.mp h
    exact mem_of_mem_asked hcode
  · split at h
    · rcases List.mem_append.mp h with h | h
      · exact happlicable _ _ h
      · split at h
        · exact happlicable _ _ h
        · cases h
    · cases h

/-- A capability that applies whatever it is asked. -/
def willing : Answers := ⟨.resolved true 0, .rejected (.text []) 0, none, fun _ => none⟩

theorem asked_willing (h : code ∈ capabilities) (hgated : isGated level required (code.answering willing) = false) :
    code ∈ asked (fun _ => willing) level required capabilities := by
  induction capabilities with
  | nil => cases h
  | cons first rest ih =>
    have hsome : (resolved (fun _ => willing) level required first).isSome = true := by
      unfold resolved resolveOne
      split <;> rfl
    unfold asked
    dsimp only
    rw [if_pos hsome]
    rcases List.mem_cons.mp h with rfl | h
    · rw [if_neg (Bool.eq_false_iff.mp hgated)]
      exact List.mem_cons_self
    · split
      · exact ih h
      · exact List.mem_cons_of_mem _ (ih h)

end Calls

/-! ### The registry and the loader -/

section World

variable {w : World} {module : ModuleType} {row : CapabilityRow} {code : CapabilityCode}

theorem CapabilityTable.lookup_required (table : CapabilityTable) (hrow : row ∈ table.rows) :
    (requiredControlLevelsFor table.rows row.module).lookup row.id = some row.requiredControlLevel := by
  have hmem : (row.id, row.requiredControlLevel) ∈ requiredControlLevelsFor table.rows row.module :=
    List.mem_map_of_mem (List.mem_filter.mpr ⟨hrow, decide_eq_true rfl⟩)
  have hsome : ((requiredControlLevelsFor table.rows row.module).lookup row.id).isSome = true :=
    List.lookup_isSome_iff.mpr ⟨_, hmem, beq_self_eq_true _⟩
  obtain ⟨level, hlevel⟩ := Option.isSome_iff_exists.mp hsome
  obtain ⟨before, after, heq, -⟩ := List.lookup_eq_some_iff.mp hlevel
  have hlevelMem : (row.id, level) ∈ requiredControlLevelsFor table.rows row.module := heq ▸ List.mem_append_right _ List.mem_cons_self
  obtain ⟨row', hrow', hpair⟩ := List.mem_map.mp hlevelMem
  obtain ⟨hid, rfl⟩ := Prod.mk.inj hpair
  obtain rfl := table.eq_of_id_eq (List.mem_of_mem_filter hrow') hrow hid
  exact hlevel

theorem mem_enabledCapabilityIdsFor {rows : List CapabilityRow} {id : Text} :
    id ∈ enabledCapabilityIdsFor rows module ↔ ∃ row ∈ rows, row.module = module ∧ row.isEnabled = true ∧ row.id = id := by
  unfold enabledCapabilityIdsFor
  simp only [List.mem_map, List.mem_filter, decide_eq_true_eq]
  constructor
  · rintro ⟨row, ⟨hrow, hmodule, henabled⟩, hid⟩
    exact ⟨row, hrow, hmodule, henabled, hid⟩
  · rintro ⟨row, hrow, hmodule, henabled, hid⟩
    exact ⟨row, ⟨hrow, hmodule, henabled⟩, hid⟩

/-- A module is run with the capabilities whose rows are enabled. -/
theorem mem_enabledOf : code ∈ w.enabledOf module ↔ code ∈ loadModuleCapabilities w.disk module ∧
    ∃ row ∈ w.table.rows, row.module = module ∧ row.isEnabled = true ∧ row.id = code.id := by
  unfold World.enabledOf loadCapabilities
  rw [List.mem_filter, List.contains_iff_mem, mem_enabledCapabilityIdsFor]

theorem level_eq_proved {reconfirmed : Option ControlLevel} {modules : List ModuleType} {level : ControlLevel}
    (h : resolvePhaseControlLevel (w.phaseRequired modules) reconfirmed = some level) : w.proved reconfirmed (.phase modules) = level := by
  unfold resolvePhaseControlLevel at h
  unfold World.proved
  dsimp only
  split at h
  · next hany => rw [if_pos hany, h, Option.getD_some]
  · next hany =>
    rw [if_neg hany]
    exact Option.some.inj h

/-! ### Jobs -/

variable {reconfirmed : Option ControlLevel} {modules : List ModuleType} {checkId : Text}

/-- A phase asks for the row and for the level, and the plan is what is left to ask for. -/
theorem phase_permitted (h : w.Within reconfirmed (.phase modules)) : w.CallsPermitted reconfirmed (.phase modules) := by
  intro answers timeoutMs call hcall
  unfold World.calls at hcall
  dsimp only at hcall
  cases hlevel : resolvePhaseControlLevel (w.phaseRequired modules) reconfirmed with
  | none =>
    rw [hlevel] at hcall
    cases hcall
  | some level =>
    rw [hlevel] at hcall
    obtain ⟨module, hmodule, hcall⟩ := List.mem_flatMap.mp hcall
    obtain ⟨hmem, hgated⟩ := mem_runModuleCalls hcall
    obtain ⟨hloaded, row, hrow, rfl, henabled, hid⟩ := mem_enabledOf.mp hmem
    have hrequired : w.requiredOf row.module call.capability.id = some row.requiredControlLevel := hid ▸ w.table.lookup_required hrow
    rw [isGated_answering, CapabilityCode.isGated, hrequired, Option.getD_some, decide_eq_false_iff_not, not_lt] at hgated
    refine ⟨row, hrow, hid, henabled, h level hlevel row hrow hmodule henabled hgated ⟨_, hloaded, hid.symm⟩, ?_⟩
    rw [level_eq_proved hlevel]
    exact hgated

/-- A capability that the plan does not include is called all the same. -/
theorem phase_within (h : w.CallsPermitted reconfirmed (.phase modules)) : w.Within reconfirmed (.phase modules) := by
  rintro level hlevel row hrow hmodule henabled hrank ⟨code, hloaded, hid⟩
  have hrequired : w.requiredOf row.module code.id = some row.requiredControlLevel := hid ▸ w.table.lookup_required hrow
  have hgated : isGated level (w.requiredOf row.module) (code.answering willing) = false := by
    rw [isGated_answering, CapabilityCode.isGated, hrequired, Option.getD_some, decide_eq_false_iff_not, not_lt]
    exact hrank
  have hcall : (⟨code, .canRun⟩ : Call) ∈ w.calls reconfirmed (fun _ _ => willing) 0 (.phase modules) := by
    unfold World.calls
    dsimp only
    rw [hlevel]
    refine List.mem_flatMap.mpr ⟨row.module, hmodule, List.mem_append_left _ (List.mem_map_of_mem (asked_willing ?_ hgated))⟩
    exact mem_enabledOf.mpr ⟨hloaded, row, hrow, rfl, henabled, hid.symm⟩
  obtain ⟨row', hpermitted⟩ := h _ _ _ hcall
  obtain rfl := w.table.eq_of_id_eq hpermitted.mem hrow (hpermitted.id.trans hid)
  exact hpermitted.plan

theorem rank_le_zero {level : ControlLevel} (h : controlLevelRank level ≤ controlLevelRank .NONE) : level = .NONE := by
  cases level with
  | NONE => rfl
  | ATTESTED => cases h
  | VERIFIED => exact absurd h (by decide)

theorem reverify_permitted_iff : w.CallsPermitted reconfirmed (.reverify module checkId) ↔ w.Within reconfirmed (.reverify module checkId) := by
  constructor
  · intro h code hcode
    have hcall : (⟨code, .reverify⟩ : Call) ∈ w.calls reconfirmed (fun _ _ => willing) 0 (.reverify module checkId) := by
      unfold World.calls
      dsimp only
      rw [hcode]
      exact List.mem_singleton_self _
    obtain ⟨row, hpermitted⟩ := h _ _ _ hcall
    exact ⟨row, hpermitted.mem, hpermitted.id, hpermitted.enabled, hpermitted.plan, rank_le_zero hpermitted.level⟩
  · intro h answers timeoutMs call hcall
    obtain ⟨code, hcode, rfl⟩ := List.mem_map.mp hcall
    obtain ⟨row, hrow, hid, henabled, hplan, hlevel⟩ := h code (Option.mem_toList.mp hcode)
    exact ⟨row, hrow, hid, henabled, hplan, by rw [hlevel]; exact Nat.zero_le _⟩

/-- **Every call is permitted** if and only if the user's plan includes what a phase's job comes to call, and what checks
an issue again is enabled, included and requires nothing. -/
theorem calls_permitted_iff (w : World) (reconfirmed : Option ControlLevel) (job : Job) : w.CallsPermitted reconfirmed job ↔ w.Within reconfirmed job := by
  cases job with
  | phase modules => exact ⟨phase_within, phase_permitted⟩
  | reverify module checkId => exact reverify_permitted_iff

end World

/-! ### Two calls that are not permitted -/

def deepCode : CapabilityCode := ⟨ascii "deep", .SECURITY, true, false, false, some [ascii "deep"], true⟩

def deepRow (isEnabled : Bool) (requiredControlLevel : ControlLevel) (restrictedToPlans : List Text) : CapabilityRow :=
  ⟨ascii "deep", .SECURITY, false, false, requiredControlLevel, isEnabled, restrictedToPlans⟩

/-- One vendored capability, its row, and a user of the free plan. -/
def deepWorld (row : CapabilityRow) : World where
  table := ⟨[row], List.nodup_singleton _⟩
  disk := ⟨[⟨ascii "deep", .SECURITY, some deepCode⟩], []⟩
  planId := ascii "free"

/-- A capability of another plan is run; and one that is disabled, and requires a verified target, checks an issue again. -/
theorem calls_beyond : ¬ (deepWorld (deepRow true .NONE [ascii "pro"])).CallsPermitted none (.phase [.SECURITY]) ∧
    ¬ (deepWorld (deepRow false .VERIFIED [])).CallsPermitted none (.reverify .SECURITY (ascii "deep.missing")) := by
  constructor
  · intro h
    have hcall : (⟨deepCode, .canRun⟩ : Call) ∈ (deepWorld (deepRow true .NONE [ascii "pro"])).calls none (fun _ _ => willing) 0 (.phase [.SECURITY]) := by
      decide
    obtain ⟨row, hpermitted⟩ := h _ _ _ hcall
    have hplan := hpermitted.plan
    rw [List.mem_singleton.mp hpermitted.mem] at hplan
    exact absurd hplan (by decide)
  · intro h
    have hcall : (⟨deepCode, .reverify⟩ : Call) ∈
        (deepWorld (deepRow false .VERIFIED [])).calls none (fun _ _ => willing) 0 (.reverify .SECURITY (ascii "deep.missing")) := by
      decide
    obtain ⟨row, hpermitted⟩ := h _ _ _ hcall
    have henabled := hpermitted.enabled
    rw [List.mem_singleton.mp hpermitted.mem] at henabled
    cases henabled

end WebAudit.Registry
