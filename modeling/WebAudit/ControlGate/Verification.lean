import WebAudit.Scans.States
import WebAudit.Lib.Rows
import WebAudit.Lib.Runs

/-!
# Verified control of a target

`services/control-gate/verify.ts` and `reconfirm.ts`, for one target. A call reads rows, probes the target for a while,
and then writes by id what it has found: whether the row is revoked by then, or the cached level has changed, it does
not ask. Any number of calls go on at once, each a place in its procedure (`Pc`); each statement is a step.

The tokens are the rows themselves, so that a probe's answer says whether the token of its row is published. A statement
that fails ends its call.
-/

namespace WebAudit.ControlGate

open WebAudit.Scans (ControlLevel)

/-! ### Rows -/

inductive VerificationMethod where
  | FILE
  | DNS
  deriving DecidableEq

/-- A row of `TargetVerification`. -/
structure Verification where
  method : VerificationMethod
  issuedAt : ℤ
  confirmedAt : Option ℤ
  lastCheckedAt : Option ℤ
  revokedAt : Option ℤ
  deriving DecidableEq

namespace Verification

variable (v : Verification)

def isOutstanding : Bool := v.confirmedAt.isNone && v.revokedAt.isNone

def isLive : Bool := v.confirmedAt.isSome && v.revokedAt.isNone

def revoke (now : ℤ) : Verification := { v with revokedAt := some now, lastCheckedAt := some now }

def touch (now : ℤ) : Verification := { v with lastCheckedAt := some now }

def confirm (now : ℤ) : Verification := { v with confirmedAt := some now, lastCheckedAt := some now }

/-- What `updateMany` does to the outstanding rows. -/
def supersede (now : ℤ) : Verification := if v.isOutstanding then { v with revokedAt := some now } else v

end Verification

/-- `CONTROL_GATE.tokenTtlMs`. -/
def tokenTtlMs : ℤ := 7 * 24 * 60 * 60 * 1000

inductive Write where
  | supersede (now : ℤ)
  | issue (method : VerificationMethod) (issuedAt : ℤ)
  | revoke (id : ℕ) (checkedAt : ℤ)
  | touch (id : ℕ) (checkedAt : ℤ)
  | confirm (id : ℕ) (checkedAt : ℤ)
  | setLevel (level : ControlLevel)
  deriving DecidableEq

/-! ### Calls -/

inductive ProbeAnswer where
  | published
  | absent
  /-- The bound on probes has refused this one. -/
  | rateLimited
  deriving DecidableEq

/-- What a call has read, when, and what its probe has answered. -/
structure Evidence where
  id : ℕ
  row : Verification
  checkedAt : ℤ
  answer : Option ProbeAnswer
  deriving DecidableEq

inductive Result where
  | issued (id : ℕ)
  /-- `VerificationFailedError`. -/
  | failed
  | threw
  | level (level : ControlLevel) (demoted : Bool) (evidence : Option Evidence)
  deriving DecidableEq

inductive Pc where
  | startVerification (method : VerificationMethod)
  | creating (method : VerificationMethod)
  | checkVerification
  | expiring (e : Evidence)
  | probingPending (e : Evidence)
  | unpublished (e : Evidence)
  | confirming (e : Evidence)
  | promoting (e : Evidence)
  | reconfirmControl
  /-- The target has been read, with its cached level. -/
  | finding (level : ControlLevel)
  | probingConfirmed (level : ControlLevel) (e : Evidence)
  | revoking (level : ControlLevel) (e : Evidence)
  | settling (level : ControlLevel) (demoted : Bool)
  | stillPublished (level : ControlLevel) (e : Evidence)
  | raising (e : Evidence)
  | done (result : Result)
  deriving DecidableEq

inductive Input where
  | go (now : ℤ)
  /-- What `findFirst` answers. -/
  | found (id : Option ℕ) (now : ℤ)
  /-- The probe, and whether `retryAfterMs` is positive when it is asked next. -/
  | probed (answer : ProbeAnswer) (exhausted : Bool)
  | fail
  deriving DecidableEq

structure System where
  verifications : List Verification
  controlLevel : ControlLevel
  calls : List Pc
  deriving DecidableEq

inductive Action where
  | call (pc : Pc)
  | turn (i : ℕ) (input : Input)
  deriving DecidableEq

namespace System

variable (s : System)

/-- The row is one that the query may return: of those that it asks for, none is later. -/
def mayFind (wanted : Verification → Bool) (key : Verification → Option ℤ) : Option ℕ → Bool
  | none => s.verifications.all fun v => !wanted v
  | some id => s.verifications[id]?.any fun row => wanted row && s.verifications.all fun v => !wanted v || (key v).getD 0 ≤ (key row).getD 0

def write : Option Write → System
  | none => s
  | some (.supersede now) => { s with verifications := s.verifications.map (·.supersede now) }
  | some (.issue method issuedAt) => { s with verifications := s.verifications ++ [⟨method, issuedAt, none, none, none⟩] }
  | some (.revoke id checkedAt) => { s with verifications := s.verifications.modify id (·.revoke checkedAt) }
  | some (.touch id checkedAt) => { s with verifications := s.verifications.modify id (·.touch checkedAt) }
  | some (.confirm id checkedAt) => { s with verifications := s.verifications.modify id (·.confirm checkedAt) }
  | some (.setLevel level) => { s with controlLevel := level }

end System

/-- `attestedFloor`. -/
def attestedFloor (attested : Bool) : ControlLevel := if attested then .ATTESTED else .NONE

/-- One step of a call: what it writes, and where it goes. -/
def turn (attested : Bool) (s : System) : Pc → Input → Option (Option Write × Pc)
  | .done _, _ => none
  | _, .fail => some (none, .done .threw)
  | .startVerification method, .go now => some (some (.supersede now), .creating method)
  | .creating method, .go now => some (some (.issue method now), .done (.issued s.verifications.length))
  | .checkVerification, .found id now =>
    if s.mayFind (·.isOutstanding) (fun v => some v.issuedAt) id then
      match id with
      | none => some (none, .done .failed)
      | some id => s.verifications[id]?.map fun row =>
        (none, if tokenTtlMs < now - row.issuedAt then .expiring ⟨id, row, now, none⟩ else .probingPending ⟨id, row, now, none⟩)
    else none
  | .expiring e, .go _ => some (some (.revoke e.id e.checkedAt), .done .failed)
  | .probingPending e, .probed answer _ =>
    some (none, if answer = .published then .confirming { e with answer := some answer }
      else .unpublished { e with answer := some answer })
  | .unpublished e, .go _ => some (some (.touch e.id e.checkedAt), .done .failed)
  | .confirming e, .go _ => some (some (.confirm e.id e.checkedAt), .promoting e)
  | .promoting e, .go _ => some (some (.setLevel .VERIFIED), .done (.level .VERIFIED false (some e)))
  | .reconfirmControl, .go _ => some (none, .finding s.controlLevel)
  | .finding level, .found id now =>
    if s.mayFind (·.isLive) (·.confirmedAt) id then
      match id with
      | none => some (none, .settling level (level = .VERIFIED))
      | some id => s.verifications[id]?.map fun row => (none, .probingConfirmed level ⟨id, row, now, none⟩)
    else none
  | .probingConfirmed level e, .probed answer exhausted =>
    some (none, if answer = .published then .stillPublished level { e with answer := some answer }
      else if exhausted then .done (.level (attestedFloor attested) false none)
      else .revoking level { e with answer := some answer })
  | .revoking level e, .go _ => some (some (.revoke e.id e.checkedAt), .settling level true)
  | .settling level demoted, .go _ =>
    some (if level = attestedFloor attested then none else some (.setLevel (attestedFloor attested)),
      .done (.level (attestedFloor attested) demoted none))
  | .stillPublished level e, .go _ =>
    some (some (.touch e.id e.checkedAt),
      if level = .VERIFIED then .done (.level .VERIFIED false (some e)) else .raising e)
  | .raising e, .go _ => some (some (.setLevel .VERIFIED), .done (.level .VERIFIED false (some e)))
  | _, _ => none

/-- Where a call begins. -/
def Pc.begins : Pc → Bool
  | .startVerification _ | .checkVerification | .reconfirmControl => true
  | _ => false

def next (attested : Bool) (s : System) : Action → Option System
  | .call pc => if pc.begins then some { s with calls := s.calls ++ [pc] } else none
  | .turn i input =>
    (s.calls[i]?).bind fun pc => (turn attested s pc input).map fun out =>
      { s.write out.1 with calls := s.calls.set i out.2 }

def step (attested : Bool) (s : System) (a : Action) (s' : System) : Prop := next attested s a = some s'

/-- Some confirmed verification is unrevoked. -/
def System.Verified (s : System) : Prop := ∃ (id : ℕ) (row : Verification), s.verifications[id]? = some row ∧ row.isLive = true

/-- A target before any of the calls. -/
structure System.Start (s : System) : Prop where
  level : s.controlLevel = .VERIFIED → s.Verified
  calls : s.calls = []

/-! ### What a turn is -/

/-- The turns, one for each statement, probe and answer. -/
inductive Turns (attested : Bool) (s : System) : Pc → Input → Option Write → Pc → Prop
  | failed {pc} (hpc : ∀ result, pc ≠ .done result) : Turns attested s pc .fail none (.done .threw)
  | supersede {method now} : Turns attested s (.startVerification method) (.go now) (some (.supersede now)) (.creating method)
  | issue {method now} : Turns attested s (.creating method) (.go now) (some (.issue method now)) (.done (.issued s.verifications.length))
  | noneOutstanding {now} : Turns attested s .checkVerification (.found none now) none (.done .failed)
  | expired {id now row} (hrow : s.verifications[id]? = some row) (hout : row.isOutstanding = true) :
      Turns attested s .checkVerification (.found (some id) now) none (.expiring ⟨id, row, now, none⟩)
  | outstanding {id now row} (hrow : s.verifications[id]? = some row) (hout : row.isOutstanding = true)
      (httl : now - row.issuedAt ≤ tokenTtlMs) :
      Turns attested s .checkVerification (.found (some id) now) none (.probingPending ⟨id, row, now, none⟩)
  | expire {e now} : Turns attested s (.expiring e) (.go now) (some (.revoke e.id e.checkedAt)) (.done .failed)
  | pendingPublished {e exhausted} :
      Turns attested s (.probingPending e) (.probed .published exhausted) none (.confirming { e with answer := some .published })
  | pendingUnpublished {e answer exhausted} :
      Turns attested s (.probingPending e) (.probed answer exhausted) none (.unpublished { e with answer := some answer })
  | touchPending {e now} : Turns attested s (.unpublished e) (.go now) (some (.touch e.id e.checkedAt)) (.done .failed)
  | confirm {e now} : Turns attested s (.confirming e) (.go now) (some (.confirm e.id e.checkedAt)) (.promoting e)
  | promote {e now} :
      Turns attested s (.promoting e) (.go now) (some (.setLevel .VERIFIED)) (.done (.level .VERIFIED false (some e)))
  | readTarget {now} : Turns attested s .reconfirmControl (.go now) none (.finding s.controlLevel)
  | noneLive {level now} : Turns attested s (.finding level) (.found none now) none (.settling level (level = .VERIFIED))
  | live {level id now row} (hrow : s.verifications[id]? = some row) (hlive : row.isLive = true) :
      Turns attested s (.finding level) (.found (some id) now) none (.probingConfirmed level ⟨id, row, now, none⟩)
  | confirmedPublished {level e exhausted} :
      Turns attested s (.probingConfirmed level e) (.probed .published exhausted) none
        (.stillPublished level { e with answer := some .published })
  | inconclusive {level e answer} :
      Turns attested s (.probingConfirmed level e) (.probed answer true) none (.done (.level (attestedFloor attested) false none))
  | gone {level e answer} :
      Turns attested s (.probingConfirmed level e) (.probed answer false) none (.revoking level { e with answer := some answer })
  | revoke {level e now} : Turns attested s (.revoking level e) (.go now) (some (.revoke e.id e.checkedAt)) (.settling level true)
  | settled {demoted now} :
      Turns attested s (.settling (attestedFloor attested) demoted) (.go now) none (.done (.level (attestedFloor attested) demoted none))
  | settle {level demoted now} (hlevel : level ≠ attestedFloor attested) :
      Turns attested s (.settling level demoted) (.go now) (some (.setLevel (attestedFloor attested)))
        (.done (.level (attestedFloor attested) demoted none))
  | touchVerified {e now} :
      Turns attested s (.stillPublished .VERIFIED e) (.go now) (some (.touch e.id e.checkedAt))
        (.done (.level .VERIFIED false (some e)))
  | touchLow {level e now} (hlevel : level ≠ .VERIFIED) :
      Turns attested s (.stillPublished level e) (.go now) (some (.touch e.id e.checkedAt)) (.raising e)
  | raise {e now} :
      Turns attested s (.raising e) (.go now) (some (.setLevel .VERIFIED)) (.done (.level .VERIFIED false (some e)))

variable {attested : Bool} {s s' s₀ : System} {a : Action} {pc pc' : Pc} {input : Input} {w : Option Write} {id i : ℕ}
  {row : Verification} {e : Evidence}

/-- What a query has found is a row that it asks for. -/
theorem System.mayFind_some {wanted : Verification → Bool} {key : Verification → Option ℤ}
    (h : s.mayFind wanted key (some id) = true) : ∃ row, s.verifications[id]? = some row ∧ wanted row = true := by
  obtain ⟨row, hrow, hw⟩ := Option.any_eq_true _ _ |>.mp h
  exact ⟨row, hrow, (Bool.and_eq_true_iff.mp hw).1⟩

theorem turns_of_turn (h : turn attested s pc input = some (w, pc')) : Turns attested s pc input w pc' := by
  unfold turn at h
  split at h
  · cases h
  · rename_i hdone
    cases h
    exact .failed hdone
  · cases h
    exact .supersede
  · cases h
    exact .issue
  · rename_i id now
    split at h
    · rename_i hfind
      cases id with
      | none =>
        cases h
        exact .noneOutstanding
      | some id =>
        obtain ⟨row, hrow, hout⟩ := System.mayFind_some hfind
        simp only [hrow, Option.map_some, Option.some.injEq, Prod.mk.injEq] at h
        obtain ⟨rfl, rfl⟩ := h
        split
        · exact .expired hrow hout
        · exact .outstanding hrow hout (by omega)
    · cases h
  · cases h
    exact .expire
  · rename_i e answer exhausted
    cases h
    split
    · rename_i hpub
      subst hpub
      exact .pendingPublished
    · exact .pendingUnpublished
  · cases h
    exact .touchPending
  · cases h
    exact .confirm
  · cases h
    exact .promote
  · cases h
    exact .readTarget
  · rename_i level id now
    split at h
    · rename_i hfind
      cases id with
      | none =>
        cases h
        exact .noneLive
      | some id =>
        obtain ⟨row, hrow, hlive⟩ := System.mayFind_some hfind
        simp only [hrow, Option.map_some, Option.some.injEq, Prod.mk.injEq] at h
        obtain ⟨rfl, rfl⟩ := h
        exact .live hrow hlive
    · cases h
  · rename_i level e answer exhausted
    cases h
    split
    · rename_i hpub
      subst hpub
      exact .confirmedPublished
    · cases exhausted with
      | true => exact .inconclusive
      | false => exact .gone
  · cases h
    exact .revoke
  · rename_i level demoted now
    cases h
    split
    · rename_i hlevel
      subst hlevel
      exact .settled
    · rename_i hlevel
      exact .settle hlevel
  · rename_i level e now
    cases h
    split
    · rename_i hlevel
      subst hlevel
      exact .touchVerified
    · rename_i hlevel
      exact .touchLow hlevel
  · cases h
    exact .raise
  · cases h

end WebAudit.ControlGate
