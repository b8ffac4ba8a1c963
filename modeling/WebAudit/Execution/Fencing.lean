import WebAudit.Execution.Attempts
import WebAudit.Execution.Host

/-!
# When a host finalizes

A host goes by what its last decision has read, one statement at a time, after the child was gone.
In a run this is what it has passed through (`Passed`), and nothing says that it is still so when
the finalizer commits: that looks at the row of the unit alone.

What a host knows at each of its statements is `Knows`. What happens elsewhere does not change what
has been seen.
-/

namespace WebAudit.Execution

open WebAudit.Lib WebAudit.Planning
open ExecutionUnitStatus

/-! ### What a decision reads -/

/-- The scan has not ended early, and its deadline is ahead. -/
def InTime (plan : Option ScanPlan) (scan : Option Scan) (now : ℤ) : Prop :=
  scan.bind (·.terminalState) = none ∧ ∃ deadline, deadlineOf plan scan = .ok deadline ∧ ∀ d, deadline = some (some d) → now < d

section Reads

variable (j i n : ℕ) (scan : Option Scan) (now : ℤ) (s : Platform)

/-- The child of the host has exited. -/
def Gone : Prop := ∃ x, s.hosts[j]? = some x ∧ x.exited = true

/-- The unit is not over. -/
def Going : Prop := ∃ st, s.db.statusOf i = some st ∧ st.isTerminal = false

def AtTime : Prop := s.db.clock = now

def HasScan : Prop := ∃ u, s.db.units[i]? = some u ∧ s.db.scanOf u = scan

/-- No stop that covers the unit is pending, and by what has been read before there is time left. -/
def Unstopped : Prop := ∃ u, s.db.units[i]? = some u ∧ s.db.findPendingStop u = none ∧ InTime (s.db.planOf u) scan now

def HasLease : Prop := s.db.hasOpenLease i = true

/-- The lease is open, and runs beyond this time. -/
def Renews : Prop := ∃ l, s.db.leases[n]? = some l ∧ renewsAt l now = true

/-- The unit is `RUNNING`, or over. -/
def Tables.Started (db : Tables) : Prop := db.statusOf i = some RUNNING ∨ db.isOver i

end Reads

/-- What says that nothing stands against the unit, the last read first. -/
def causeReads (j i : ℕ) (scan : Option Scan) (now : ℤ) : List (Platform → Prop) :=
  [Unstopped i scan now, HasScan i scan, AtTime now, Going i, Gone j]

/-- What says that its lease is live. -/
def leaseReads (x : Host) (later : ℤ) : List (Platform → Prop) :=
  match x.leaseClass, x.lease with
  | .N, _ => []
  | .L, none => [HasLease x.host.executionUnitId]
  | .L, some n => [Renews n later, AtTime later, HasLease x.host.executionUnitId]

/-- A decision to go on, made after the child was gone. -/
def Decided (s : Platform) (j : ℕ) (x : Host) : Prop :=
  ∃ scan now later, Passed Platform.step .init (leaseReads x later ++ causeReads j x.host.executionUnitId scan now) s

/-- What a decision has read so far, if it is to say `CONTINUE`. -/
def DecidePc.Knows (s : Platform) (j : ℕ) (x : Host) : DecidePc → Prop
  | .row => Passed Platform.step .init [Gone j] s
  | .cause u .clock => (∃ st, s.db.units[x.host.executionUnitId]? = some { u with status := st }) ∧
      (u.status.isTerminal = false → Passed Platform.step .init [Going x.host.executionUnitId, Gone j] s)
  | .cause u (.scan now) => (∃ st, s.db.units[x.host.executionUnitId]? = some { u with status := st }) ∧
      Passed Platform.step .init [AtTime now, Going x.host.executionUnitId, Gone j] s
  | .cause u (.stop now scan) => (∃ st, s.db.units[x.host.executionUnitId]? = some { u with status := st }) ∧
      Passed Platform.step .init [HasScan x.host.executionUnitId scan, AtTime now, Going x.host.executionUnitId, Gone j] s
  | .lease reason => x.leaseClass = .L ∧ (decideBy reason .RENEWED = .CONTINUE →
      ∃ scan now, Passed Platform.step .init (causeReads j x.host.executionUnitId scan now) s)
  | .renewRead n reason => x.leaseClass = .L ∧ x.lease = some n ∧ (decideBy reason .RENEWED = .CONTINUE →
      ∃ scan now, Passed Platform.step .init (HasLease x.host.executionUnitId :: causeReads j x.host.executionUnitId scan now) s)
  | .renewCheck n reason later | .renewUpdate n reason later =>
    x.leaseClass = .L ∧ x.lease = some n ∧ (decideBy reason .RENEWED = .CONTINUE →
      ∃ scan now, Passed Platform.step .init
        (AtTime later :: HasLease x.host.executionUnitId :: causeReads j x.host.executionUnitId scan now) s)

/-- What is known of a host at its next statement. -/
def HostPc.Knows (s : Platform) (j : ℕ) (x : Host) : HostPc → Prop
  | .load | .race | .terminating | .returned _ | .thrown => True
  | .deciding d => x.exited = true ∧ d.Knows s j x
  | .reason | .acknowledge => x.exited = true
  | .finalizing kind => x.exited = true ∧ kind ≠ .REFUSED ∧
      (kind = .COMPLETED → x.hardStopFired = false ∧ (∃ o, x.observation = some o ∧ classifyFailure o = .COMPLETED) ∧ Decided s j x)

/-! ### What a decision comes to know -/

section Decide

variable {s : Platform} {j : ℕ} {x : Host} {db' : Tables} {d d' : DecidePc} {answer : DecideAnswer}

theorem decideBy_continue {cause : PreRunCause} {renewal : LeaseRenewal} (h : decideBy cause renewal = .CONTINUE) :
    renewal = .RENEWED := by
  cases renewal <;> first | rfl | (cases cause <;> cases h)

/-- A cause that lets a running unit go on. -/
theorem deadlineCause_continue {plan : Option ScanPlan} {scan : Option Scan} {u : ExecutionUnit} {now : ℤ} {cause : PreRunCause}
    (h : deadlineCause plan scan u ⟨.RUNNING, 0⟩ now = .ok cause) (hgo : decideBy cause .RENEWED = .CONTINUE) :
    InTime plan scan now := by
  obtain ⟨deadline, hdeadline, h⟩ := bind_ok_iff.mp h
  cases h
  unfold dispatchDeadlineDecision at hgo
  split at hgo
  · cases hgo
  · cases hgo
  · cases hgo
  rename_i hstate
  refine ⟨hstate, deadline, hdeadline, fun d hd => ?_⟩
  subst hd
  by_contra hlate
  have hover : d - now ≤ 0 := by omega
  simp [causeOf, hover, decideBy] at hgo

/-- The next read of a cause. -/
theorem cause_knows {u : ExecutionUnit} {r r' : Reading} (hk : (DecidePc.cause u r).Knows s j x)
    (hread : readCause s.db u u.status ⟨.RUNNING, 0⟩ r = .inl r') : (DecidePc.cause u r').Knows s j x := by
  cases r with
  | clock =>
    simp only [readCause] at hread
    split at hread <;> cases hread
    rename_i hlive
    exact ⟨hk.1, (hk.2 (by simpa using hlive)).see rfl⟩
  | scan now =>
    cases hread
    obtain ⟨⟨st, hst⟩, hpassed⟩ := hk
    exact ⟨⟨st, hst⟩, hpassed.see ⟨_, hst, rfl⟩⟩
  | stop now scan =>
    simp only [readCause] at hread
    split at hread <;> cases hread

/-- A cause that lets the unit go on. -/
theorem cause_continue {u : ExecutionUnit} {r : Reading} {reason : PreRunCause} (hk : (DecidePc.cause u r).Knows s j x)
    (hread : readCause s.db u u.status ⟨.RUNNING, 0⟩ r = .inr (.ok reason)) (hlive : ∀ st, reason ≠ .TERMINAL st)
    (hgo : decideBy reason .RENEWED = .CONTINUE) :
    ∃ scan now, Passed Platform.step .init (causeReads j x.host.executionUnitId scan now) s := by
  cases r with
  | clock =>
    simp only [readCause] at hread
    split at hread <;> cases hread
    exact absurd rfl (hlive u.status)
  | scan now => cases hread
  | stop now scan =>
    obtain ⟨⟨st, hst⟩, hpassed⟩ := hk
    simp only [readCause] at hread
    split at hread
    · cases hread
      cases hgo
    · rename_i hnone
      exact ⟨scan, now, hpassed.see ⟨_, hst, hnone, deadlineCause_continue (Sum.inr.inj hread) hgo⟩⟩

/-- After a cause that is not that the unit is over. -/
theorem afterCause_eq {reason : PreRunCause} {r : DecidePc ⊕ HostLoopAction} (h : afterCause x reason = r) :
    (∃ st, reason = .TERMINAL st) ∧ r = .inr .STOP_TERMINAL ∨
      (∀ st, reason ≠ .TERMINAL st) ∧ (x.leaseClass = .L ∧ r = .inl (.lease reason) ∨
        x.leaseClass = .N ∧ r = .inr (decideBy reason .RENEWED)) := by
  subst h
  unfold afterCause
  split
  · exact .inl ⟨⟨_, rfl⟩, rfl⟩
  · rename_i hne
    refine .inr ⟨hne, ?_⟩
    split
    · exact .inl ⟨by assumption, rfl⟩
    · exact .inr ⟨by assumption, rfl⟩

/-- The next read of a decision. -/
theorem decide_knows (hk : d.Knows s j x) (h : decideStep s.db x d answer = some (db', .inl d')) : d'.Knows s j x := by
  cases d with
  | row =>
    cases answer <;> simp only [decideStep] at h <;> try cases h
    split at h <;> cases h
    rename_i u hu
    have hrow := (loadUnit_some hu).1
    exact ⟨⟨_, hrow⟩, fun hlive => hk.see ⟨_, statusOf_eq hrow, hlive⟩⟩
  | cause u r =>
    cases answer <;> simp only [decideStep] at h <;> try cases h
    split at h
    · cases h
      rename_i hread
      exact cause_knows hk hread
    · cases h
    · rename_i reason hread
      rcases afterCause_eq (Prod.mk.inj (Option.some.inj h)).2 with ⟨-, hr⟩ | ⟨hne, ⟨hclass, hr⟩ | ⟨-, hr⟩⟩ <;> cases hr
      exact ⟨hclass, cause_continue hk hread hne⟩
  | lease reason =>
    cases answer <;> simp only [decideStep] at h <;> try cases h
    split at h
    · cases h
    rename_i hlease
    split at h <;> cases h
    rename_i n hn
    refine ⟨hk.1, hn, fun hgo => ?_⟩
    obtain ⟨scan, now, hpassed⟩ := hk.2 hgo
    exact ⟨scan, now, hpassed.see (by simpa [HasLease] using hlease)⟩
  | renewRead n reason =>
    cases answer <;> simp only [decideStep] at h <;> cases h
    refine ⟨hk.1, hk.2.1, fun hgo => ?_⟩
    obtain ⟨scan, now, hpassed⟩ := hk.2.2 hgo
    exact ⟨scan, now, hpassed.see rfl⟩
  | renewCheck n reason later =>
    cases answer with
    | database | uncertain => cases h
    | check refusal =>
      cases refusal with
      | none =>
        cases h
        exact hk
      | some refusal =>
        simp only [decideStep] at h
        split at h <;> cases h
  | renewUpdate n reason later =>
    cases answer <;> simp only [decideStep] at h
    · split at h <;> cases h
    · cases h
    · cases h

/-- **To go on is to have read it all.** -/
theorem decide_continue (hk : d.Knows s j x) (h : decideStep s.db x d answer = some (db', .inr .CONTINUE)) : Decided s j x := by
  cases d with
  | row =>
    cases answer <;> simp only [decideStep] at h <;> try cases h
    split at h <;> cases h
  | cause u r =>
    cases answer <;> simp only [decideStep] at h <;> try cases h
    split at h
    · cases h
    · cases h
    · rename_i reason hread
      rcases afterCause_eq (Prod.mk.inj (Option.some.inj h)).2 with ⟨-, hr⟩ | ⟨hne, ⟨-, hr⟩ | ⟨hclass, hr⟩⟩ <;> try cases hr
      obtain ⟨scan, now, hpassed⟩ := cause_continue hk hread hne (Sum.inr.inj hr).symm
      refine ⟨scan, now, 0, ?_⟩
      rw [leaseReads, hclass]
      exact hpassed
  | lease reason =>
    cases answer <;> simp only [decideStep] at h <;> try cases h
    split at h
    · cases decideBy_continue (Sum.inr.inj (Prod.mk.inj (Option.some.inj h)).2)
    rename_i hlease
    split at h <;> try cases h
    rename_i hnone
    obtain ⟨scan, now, hpassed⟩ := hk.2 (Sum.inr.inj (Prod.mk.inj (Option.some.inj h)).2)
    refine ⟨scan, now, 0, ?_⟩
    rw [leaseReads, hk.1, hnone]
    exact hpassed.see (by simpa [HasLease] using hlease)
  | renewRead n reason =>
    cases answer <;> simp only [decideStep] at h <;> try cases h
    cases decideBy_continue (Sum.inr.inj (Prod.mk.inj (Option.some.inj h)).2)
  | renewCheck n reason later =>
    cases answer with
    | database => cases h
    | uncertain => cases decideBy_continue (Sum.inr.inj (Prod.mk.inj (Option.some.inj h)).2)
    | check refusal =>
      cases refusal with
      | none => cases h
      | some refusal =>
        simp only [decideStep] at h
        split at h
        · cases h
        · rename_i hne
          exact absurd (decideBy_continue (Sum.inr.inj (Prod.mk.inj (Option.some.inj h)).2)) hne
  | renewUpdate n reason later =>
    cases answer <;> simp only [decideStep] at h
    · split at h
      · rename_i hrenews
        obtain ⟨l, hl, hrenews⟩ := (Option.any_eq_true _ _).mp hrenews
        obtain ⟨scan, now, hpassed⟩ := hk.2.2 (Sum.inr.inj (Prod.mk.inj (Option.some.inj h)).2)
        refine ⟨scan, now, later, ?_⟩
        rw [leaseReads, hk.1, hk.2.1]
        exact hpassed.see ⟨l, hl, hrenews⟩
      · cases decideBy_continue (Sum.inr.inj (Prod.mk.inj (Option.some.inj h)).2)
    · cases h
    · cases decideBy_continue (Sum.inr.inj (Prod.mk.inj (Option.some.inj h)).2)

end Decide

/-! ### What a host does -/

/-- What a host writes, the finalizer apart: nothing, its lease's time, or that a stop is acknowledged. -/
inductive Writes (db : Tables) : Tables → Prop where
  | none : Writes db db
  | renew (n : ℕ) (later : ℤ) :
      Writes db { db with leases := db.leases.modify n fun l => { l with expiresAt := later } }
  | acknowledge (stops : List Safety.KillSwitchState) : Writes db { db with stops }

/-- What happens beside the statements of a host changes no more than this of it. -/
structure Aside (x y : Host) : Prop where
  host : y.host = x.host
  leaseClass : y.leaseClass = x.leaseClass
  lease : y.lease = x.lease
  exited : x.exited = true → y.exited = true
  observation : y.observation = x.observation
  decided : x.decided ≠ some .CONTINUE → y.decided ≠ some .CONTINUE

/-- What a step of a host can do. -/
inductive HostEffect (db : Tables) (x : Host) (pc : HostPc) : Tables → Host → HostPc → Prop where
  | aside {db' : Tables} {y : Host} (hw : Writes db db') (ha : Aside x y) (hstop : y.hardStopFired = x.hardStopFired) :
      HostEffect db x pc db' y pc
  | hardStop (hpc : pc = .load ∨ pc = .race) :
      HostEffect db x pc db { x with hardStopFired := true, aborted := true } pc
  | race (hpc : pc = .load) : HostEffect db x pc db x .race
  | leave {y : Host} (hpc : pc = .race) (hhost : y.host = x.host) (hdecided : y.decided = x.decided) :
      HostEffect db x pc db y .terminating
  | terminated (hpc : pc = .terminating) (hexited : x.exited = true) : HostEffect db x pc db x.observe (afterTermination x.observe)
  | decide {db' : Tables} {d : DecidePc} {answer : DecideAnswer} {r : DecidePc ⊕ HostLoopAction} (hpc : pc = .deciding d)
      (hdecide : decideStep db x d answer = some (db', r)) : HostEffect db x pc db' x (afterDecision x r)
  | kill {kind : FinalizeKind} (hpc : pc = .reason) (hkind : kind = .CANCELLED ∨ kind = .KILLED) :
      HostEffect db x pc db x (.finalizing kind)
  | ends {db' : Tables} {pc' : HostPc} (hw : Writes db db') (hpc' : pc' = .thrown ∨ ∃ r, pc' = .returned r) :
      HostEffect db x pc db' x pc'
  | finalize {db' : Tables} {kind : FinalizeKind} {r : FinalizeResult} (hpc : pc = .finalizing kind)
      (hf : fahes_finalize_unit db x.host.executionUnitId kind = some (db', r)) :
      HostEffect db x pc db' x (.returned (.FINALIZED r.status r.replayed))

section Host

variable {db db' : Tables} {x y : Host} {pc pc' : HostPc}

theorem decide_writes {d : DecidePc} {answer : DecideAnswer} {r : DecidePc ⊕ HostLoopAction}
    (h : decideStep db x d answer = some (db', r)) : Writes db db' := by
  unfold decideStep at h
  split at h
  all_goals (repeat' split at h) <;> cases h
  all_goals first | exact .none | exact .renew _ _

theorem decides_aside (action : HostLoopAction) : Aside x (x.decides action) ∧ (x.decides action).hardStopFired = x.hardStopFired := by
  unfold Host.decides
  split
  · exact ⟨⟨rfl, rfl, rfl, id, rfl, id⟩, rfl⟩
  · rename_i hne
    exact ⟨⟨rfl, rfl, rfl, id, rfl, fun _ he => hne (Option.some.inj he)⟩, rfl⟩

theorem ticks_aside (r : DecidePc ⊕ HostLoopAction) : Aside x (x.ticks r) ∧ (x.ticks r).hardStopFired = x.hardStopFired := by
  cases r with
  | inl d => exact ⟨⟨rfl, rfl, rfl, id, rfl, id⟩, rfl⟩
  | inr action => exact decides_aside action

/-- **One step of a host.** -/
theorem host_does {input : HostInput} (h : hostStep db x pc input = some (db', y, pc')) : HostEffect db x pc db' y pc' := by
  cases input with
  | database =>
    simp only [hostStep] at h
    split at h
    · cases h
      exact .race rfl
    · obtain ⟨⟨db₁, r⟩, hf, h⟩ := Option.bind_eq_some_iff.mp h
      cases h
      exact .finalize rfl hf
    · cases h
  | hardStop =>
    simp only [hostStep] at h
    split at h <;> cases h
    exact .hardStop (by assumption)
  | tick =>
    simp only [hostStep] at h
    split at h <;> cases h
    exact .aside .none ⟨rfl, rfl, rfl, id, rfl, id⟩ rfl
  | ticks answer =>
    obtain ⟨d, -, h⟩ := Option.bind_eq_some_iff.mp h
    obtain ⟨⟨db₁, r⟩, hdecide, h⟩ := Option.bind_eq_some_iff.mp h
    cases h
    exact .aside (decide_writes hdecide) (ticks_aside r).1 (ticks_aside r).2
  | tickFails =>
    simp only [hostStep] at h
    split at h <;> cases h
    exact .aside .none (decides_aside _).1 (decides_aside _).2
  | checkpoint =>
    simp only [hostStep] at h
    split at h <;> cases h
    exact .aside .none ⟨rfl, rfl, rfl, id, rfl, id⟩ rfl
  | requestHostStop =>
    simp only [hostStep] at h
    split at h <;> cases h
    exact .aside .none ⟨rfl, rfl, rfl, id, rfl, id⟩ rfl
  | exits =>
    cases h
    exact .aside .none ⟨rfl, rfl, rfl, fun _ => rfl, rfl, id⟩ rfl
  | run observation =>
    simp only [hostStep] at h
    split at h <;> cases h
    exact .leave (by assumption) rfl rfl
  | reject =>
    simp only [hostStep] at h
    split at h <;> cases h
    exact .leave (by assumption) rfl rfl
  | stop =>
    simp only [hostStep] at h
    split at h <;> cases h
    rename_i hstop
    exact .leave hstop.1 rfl rfl
  | terminate confirmed =>
    simp only [hostStep] at h
    split at h
    · cases h
    rename_i hpc
    split at h
    · cases h
      exact .ends .none (.inr ⟨_, rfl⟩)
    split at h <;> cases h
    exact .terminated (by simpa using hpc) (by assumption)
  | decides answer =>
    simp only [hostStep] at h
    split at h
    · obtain ⟨⟨db₁, r⟩, hdecide, h⟩ := Option.bind_eq_some_iff.mp h
      cases h
      exact .decide rfl hdecide
    · cases h
  | reason userCancellation =>
    simp only [hostStep] at h
    split at h <;> cases h
    exact .kill (by assumption) (by cases userCancellation <;> simp)
  | acknowledge acknowledged =>
    simp only [hostStep] at h
    split at h <;> cases h
    exact .ends (.acknowledge _) (.inr ⟨_, rfl⟩)
  | throws =>
    simp only [hostStep] at h
    split at h <;> cases h <;> exact .ends .none (.inl rfl)

end Host

/-! ### What a host comes to know -/

section Knows

variable {s s' : Platform} {j : ℕ} {x y : Host} {pc pc' : HostPc} {a : Platform.Action}

theorem finalizeFor_knows {action : HostLoopAction} (hexited : x.exited = true) (hgo : action = .CONTINUE → Decided s j x) :
    (finalizeFor x action).Knows s j x := by
  cases action with
  | STOP_TERMINAL => exact trivial
  | ABORT_LEASE_LOST acknowledgeStop =>
    cases acknowledgeStop with
    | true => exact hexited
    | false => exact trivial
  | STOP_AND_FINALIZE cause =>
    cases cause with
    | KILL_SWITCH_PENDING => exact hexited
    | GRANT_REVOKED | GRANT_EXPIRED | F07_STATE_UNCERTAIN => exact ⟨hexited, nofun, nofun⟩
  | EXPIRE_AND_FINALIZE cause => cases cause <;> exact ⟨hexited, nofun, nofun⟩
  | CONTINUE =>
    simp only [finalizeFor]
    split
    · exact ⟨hexited, nofun, nofun⟩
    rename_i hstop
    split
    · rename_i hclass
      refine ⟨hexited, nofun, fun _ => ⟨by simpa using hstop, ?_, hgo rfl⟩⟩
      cases hobs : x.observation with
      | none =>
        rw [hobs] at hclass
        cases hclass
      | some o =>
        rw [hobs] at hclass
        exact ⟨o, rfl, hclass⟩
    · exact ⟨hexited, nofun, nofun⟩

theorem DecidePc.Knows.congr {d : DecidePc} (hk : d.Knows s j x) (hhost : y.host = x.host) (hclass : y.leaseClass = x.leaseClass)
    (hlease : y.lease = x.lease) : d.Knows s j y := by
  cases d with
  | cause u r => cases r <;> simpa only [DecidePc.Knows, hhost] using hk
  | _ => simpa only [DecidePc.Knows, hhost, hclass, hlease] using hk

theorem Decided.congr (hd : Decided s j x) (hhost : y.host = x.host) (hclass : y.leaseClass = x.leaseClass)
    (hlease : y.lease = x.lease) : Decided s j y := by
  simpa only [Decided, leaseReads, hhost, hclass, hlease] using hd

/-- What happens beside a host's statements leaves what it knows. -/
theorem HostPc.Knows.aside (hk : pc.Knows s j x) (ha : Aside x y) (hstop : y.hardStopFired = x.hardStopFired) : pc.Knows s j y := by
  cases pc with
  | load | race | terminating | returned r | thrown => exact trivial
  | deciding d => exact ⟨ha.exited hk.1, hk.2.congr ha.host ha.leaseClass ha.lease⟩
  | reason | acknowledge => exact ha.exited hk
  | finalizing kind =>
    obtain ⟨hexited, hkind, hcompleted⟩ := hk
    refine ⟨ha.exited hexited, hkind, fun he => ?_⟩
    obtain ⟨hnot, hobs, hd⟩ := hcompleted he
    exact ⟨hstop.trans hnot, ha.observation ▸ hobs, hd.congr ha.host ha.leaseClass ha.lease⟩

theorem observe_same (x : Host) : x.observe.host = x.host ∧ x.observe.exited = x.exited ∧ x.observe.decided = x.decided := by
  unfold Host.observe
  split <;> exact ⟨rfl, rfl, rfl⟩

/-- **What a host knows at its next statement.** -/
theorem HostPc.Knows.effect {db' : Tables} (hk : pc.Knows s j x) (hdecided : x.decided ≠ some .CONTINUE)
    (hgone : x.exited = true → Passed Platform.step .init [Gone j] s) (h : HostEffect s.db x pc db' y pc') : pc'.Knows s j y := by
  cases h with
  | aside hw ha hstop => exact hk.aside ha hstop
  | hardStop hpc => rcases hpc with rfl | rfl <;> exact trivial
  | race hpc => exact trivial
  | leave hpc hhost hdecided => exact trivial
  | terminated hpc hexited =>
    obtain ⟨-, hexited', hsame⟩ := observe_same x
    unfold afterTermination
    split
    · rename_i action haction
      refine finalizeFor_knows (hexited'.trans hexited) fun he => ?_
      rw [← hsame, haction, he] at hdecided
      exact absurd rfl hdecided
    · exact ⟨hexited'.trans hexited, hgone hexited⟩
  | @decide _ d answer r hpc hdecide =>
    subst hpc
    cases r with
    | inl d' => exact ⟨hk.1, decide_knows hk.2 hdecide⟩
    | inr action =>
      refine finalizeFor_knows hk.1 fun he => ?_
      subst he
      exact decide_continue hk.2 hdecide
  | kill hpc hkind =>
    subst hpc
    rcases hkind with rfl | rfl <;> exact ⟨hk, nofun, nofun⟩
  | ends hw hpc' => rcases hpc' with rfl | ⟨r, rfl⟩ <;> exact trivial
  | finalize hpc hf => exact trivial

theorem DecidePc.Knows.step {d : DecidePc} (hk : d.Knows s j x) (h : Platform.step s a s') (hkeeps : Keeps s.db s'.db) :
    d.Knows s' j x := by
  have hunit {u : ExecutionUnit} {i : ℕ} (hu : ∃ st, s.db.units[i]? = some { u with status := st }) :
      ∃ st, s'.db.units[i]? = some { u with status := st } := by
    obtain ⟨st, hst⟩ := hu
    obtain ⟨st', hst'⟩ := hkeeps i _ hst
    exact ⟨st', hst'⟩
  cases d with
  | row => exact hk.snoc h
  | cause u r =>
    cases r with
    | clock => exact ⟨hunit hk.1, fun hlive => (hk.2 hlive).snoc h⟩
    | scan now => exact ⟨hunit hk.1, hk.2.snoc h⟩
    | stop now scan => exact ⟨hunit hk.1, hk.2.snoc h⟩
  | lease reason =>
    refine ⟨hk.1, fun hgo => ?_⟩
    obtain ⟨scan, now, hpassed⟩ := hk.2 hgo
    exact ⟨scan, now, hpassed.snoc h⟩
  | renewRead n reason | renewCheck n reason later | renewUpdate n reason later =>
    refine ⟨hk.1, hk.2.1, fun hgo => ?_⟩
    obtain ⟨scan, now, hpassed⟩ := hk.2.2 hgo
    exact ⟨scan, now, hpassed.snoc h⟩

/-- What is known stays known. -/
theorem HostPc.Knows.step (hk : pc.Knows s j x) (h : Platform.step s a s') (hkeeps : Keeps s.db s'.db) : pc.Knows s' j x := by
  cases pc with
  | load | race | terminating | returned r | thrown => exact trivial
  | deciding d => exact ⟨hk.1, hk.2.step h hkeeps⟩
  | reason | acknowledge => exact hk
  | finalizing kind =>
    refine ⟨hk.1, hk.2.1, fun he => ?_⟩
    obtain ⟨hstop, hobs, scan, now, later, hpassed⟩ := hk.2.2 he
    exact ⟨hstop, hobs, scan, now, later, hpassed.snoc h⟩

end Knows

/-! ### Units that have been started -/

section Started

variable {i : ℕ}

theorem started_of_quiet {db db' : Tables} (h : Quiet db db' i) (hs : db.Started i) : db'.Started i := by
  rcases hs with hrun | hover
  · exact (h.at hrun (by decide)).imp_right And.left
  · exact .inr (h.isOver hover)

theorem started_lt {db : Tables} (hs : db.Started i) : i < db.units.length := by
  rcases hs with hrun | ⟨st, hst, -⟩
  · obtain ⟨u, hu, -⟩ := unit_of_status hrun
    exact (List.getElem?_eq_some_iff.mp hu).1
  · obtain ⟨u, hu, -⟩ := unit_of_status hst
    exact (List.getElem?_eq_some_iff.mp hu).1

/-- A transition to `edge.after` is not one of a unit that is started. -/
theorem started_cas {db : Tables} {k : ℕ} {edge : HostEdge} {units : List ExecutionUnit} (hbefore : db.statusOf k = some edge.before)
    (hunits : setStatus db.units k false edge.after = some units) (hs : db.Started i) : Tables.Started i { db with units } := by
  have hne : i ≠ k := by
    rintro rfl
    rcases hs with hrun | ⟨st, hst, hterm⟩
    · rw [hbefore] at hrun
      cases edge <;> cases hrun
    · rw [hbefore] at hst
      cases hst
      cases edge <;> cases hterm
  have hi := started_lt hs
  obtain ⟨st, hst, hor⟩ := (setStatus_moves hunits).2 i _ (List.getElem?_eq_getElem hi)
  have hsame : st = db.units[i].status := hor.resolve_right fun h => hne h.1
  have heq : Tables.statusOf { db with units } i = db.statusOf i := by
    rw [statusOf_eq (List.getElem?_eq_getElem hi), statusOf_eq hst, hsame]
  simpa only [Tables.Started, Tables.isOver, heq] using hs

variable {t t' : State} {b : Action}

/-- A dispatch keeps the units, and those that are started. -/
theorem dispatch_keeps {db db' : Tables} {k : ℕ} {d : Dispatch} {pc' : DispatchPc} (h : DispatchEffect db k d db' pc') :
    Keeps db db' ∧ (db.Started i → db'.Started i) := by
  cases h with
  | same _ _ | claim _ _ _ | lease _ | free _ => exact ⟨.refl _, id⟩
  | cas _ hbefore hunits _ => exact ⟨.of_moves (setStatus_moves hunits), started_cas hbefore hunits⟩
  | finalize _ hf _ =>
    have hevent : db.event (.finalize d.host.executionUnitId .REFUSED) = some db' := by
      rw [Tables.event, hf]
      rfl
    exact ⟨(event_keeps hevent).2.1, fun hs => started_of_quiet (event_quiet hevent (started_lt hs)) hs⟩

theorem step_keeps (h : step t b t') : Keeps t.db t'.db ∧ (t.db.Started i → t'.db.Started i) := by
  cases b with
  | event e =>
    obtain ⟨db', he, rfl⟩ := Option.map_eq_some_iff.mp h
    exact ⟨(event_keeps he).2.1, fun hs => started_of_quiet (event_quiet he (started_lt hs)) hs⟩
  | call host leaseClass margin =>
    cases h
    exact ⟨.refl _, id⟩
  | run k answer =>
    obtain ⟨d, hk, h⟩ := Option.bind_eq_some_iff.mp h
    obtain ⟨⟨db', pc'⟩, hstep, h⟩ := Option.bind_eq_some_iff.mp h
    cases h
    exact dispatch_keeps (dispatch_does rfl hstep)
  | throw k =>
    obtain ⟨d, hk, h⟩ := Option.bind_eq_some_iff.mp h
    split at h <;> cases h
    exact ⟨.refl _, id⟩

theorem afterClaim_not_running (u : ExecutionUnit) (result : ClaimResult) : (afterClaim u result).isRunning = false := by
  cases result with
  | NOT_CLAIMABLE reason => cases reason <;> rfl
  | _ => rfl

theorem afterPre_not_running (u : ExecutionUnit) (n : ℕ) (cause : PreRunCause) : (afterPre u n cause).isRunning = false := by
  cases cause <;> rfl

theorem afterAgain_not_running (n : ℕ) (cause : PreRunCause) : (afterAgain n cause).isRunning = false := by
  cases cause <;> rfl

/-- `RUNNING` is returned when the last transition has been won. -/
theorem running_won {db db' : Tables} {k : ℕ} {d : Dispatch} {pc pc' : DispatchPc} {answer : Answer}
    (h : dispatchStep db k d pc answer = some (db', pc')) (hrun : pc'.isRunning = true) :
    db'.statusOf d.host.executionUnitId = some RUNNING := by
  unfold dispatchStep at h
  split at h
  case h_13 n =>
    rcases hcas : casHostTransition db d.host n k d.leaseClass .DISPATCHED_RUNNING with ⟨db₁, result⟩
    rw [hcas] at h
    cases h
    obtain ⟨rfl, hbefore, units, hunits, rfl⟩ | ⟨hne, -⟩ := cas_does hcas
    · obtain ⟨u, hu, -⟩ := unit_of_status hbefore
      simp only [setStatus, hu] at hunits
      split at hunits <;> cases hunits
      simp [Tables.statusOf, (List.getElem?_eq_some_iff.mp hu).1, HostEdge.after]
    · cases result with
      | OK => exact absurd rfl hne
      | LOST | LEASE_LOST => cases hrun
  case h_14 =>
    cases h
    cases hrun
  case h_15 =>
    obtain ⟨⟨db₁, r⟩, -, h⟩ := Option.bind_eq_some_iff.mp h
    cases h
    split at hrun <;> cases hrun
  -- no other statement returns `RUNNING`
  all_goals
    (repeat' split at h) <;> cases h <;>
      first
        | cases hrun
        | (unfold afterCas at hrun; split at hrun <;> cases hrun)
        | simp only [afterClaim_not_running, afterPre_not_running, afterAgain_not_running, Bool.false_eq_true] at hrun

/-- Who has come to `RUNNING` has a unit that is started. -/
theorem step_running (h : step t b t')
    (ht : ∀ (k : ℕ) (d : Dispatch), t.dispatches[k]? = some d → d.pc.isRunning = true → t.db.Started d.host.executionUnitId)
    {k : ℕ} {d : Dispatch} (hk : t'.dispatches[k]? = some d) (hrun : d.pc.isRunning = true) :
    t'.db.Started d.host.executionUnitId := by
  have hold (hk : t.dispatches[k]? = some d) : t'.db.Started d.host.executionUnitId := (step_keeps h).2 (ht k d hk hrun)
  cases b with
  | event e =>
    obtain ⟨db', he, rfl⟩ := Option.map_eq_some_iff.mp h
    exact hold hk
  | call host leaseClass margin =>
    cases h
    rcases getElem?_concat_cases hk with rfl | hk
    · cases hrun
    · exact hold hk
  | run m answer =>
    obtain ⟨c, hm, h⟩ := Option.bind_eq_some_iff.mp h
    obtain ⟨⟨db', pc'⟩, hstep, h⟩ := Option.bind_eq_some_iff.mp h
    cases h
    by_cases e : m = k
    · subst e
      obtain rfl := Option.some.inj ((setPc_self hm).symm.trans hk)
      exact .inl (running_won hstep hrun)
    · exact hold ((setPc_ne e).symm.trans hk)
  | throw m =>
    obtain ⟨c, hm, h⟩ := Option.bind_eq_some_iff.mp h
    split at h <;> cases h
    by_cases e : m = k
    · subst e
      obtain rfl := Option.some.inj ((setPc_self hm).symm.trans hk)
      cases hrun
    · exact hold ((setPc_ne e).symm.trans hk)

end Started

/-! ### Runs -/

section Runs

variable {s s' : Platform} {a : Platform.Action}

/-- What is known in every state: a unit that has come to `RUNNING` stays there until it is over, no tick has decided to go on,
and each host knows what its next statement goes by. -/
structure Informed (s : Platform) : Prop where
  running : ∀ (k : ℕ) (d : Dispatch), s.dispatches[k]? = some d → d.pc.isRunning = true → s.db.Started d.host.executionUnitId
  started : ∀ (j : ℕ) (x : HostRun), s.hosts[j]? = some x → s.db.Started x.host.executionUnitId
  decided : ∀ (j : ℕ) (x : HostRun), s.hosts[j]? = some x → x.decided ≠ some .CONTINUE
  knows : ∀ (j : ℕ) (x : HostRun), s.hosts[j]? = some x → x.pc.Knows s j x.toHost

/-- What a host does to the tables. -/
theorem host_keeps {db db' : Tables} {x y : Host} {pc pc' : HostPc} {i : ℕ} (h : HostEffect db x pc db' y pc') :
    Keeps db db' ∧ (db.Started i → db'.Started i) := by
  have hwrites {db' : Tables} (hw : Writes db db') : Keeps db db' ∧ (db.Started i → db'.Started i) := by
    cases hw <;> exact ⟨.refl _, id⟩
  cases h with
  | aside hw _ _ => exact hwrites hw
  | hardStop _ | race _ | leave _ _ _ | terminated _ _ | kill _ _ => exact ⟨.refl _, id⟩
  | decide _ hdecide => exact hwrites (decide_writes hdecide)
  | ends hw _ => exact hwrites hw
  | @finalize _ kind _ _ hf =>
    have hevent : db.event (.finalize x.host.executionUnitId kind) = some db' := by
      rw [Tables.event, hf]
      rfl
    exact ⟨(event_keeps hevent).2.1, fun hs => started_of_quiet (event_quiet hevent (started_lt hs)) hs⟩

theorem host_same {db db' : Tables} {x y : Host} {pc pc' : HostPc} (h : HostEffect db x pc db' y pc')
    (hdecided : x.decided ≠ some .CONTINUE) : y.host = x.host ∧ y.decided ≠ some .CONTINUE := by
  cases h with
  | aside _ ha _ => exact ⟨ha.host, ha.decided hdecided⟩
  | leave _ hhost hsame => exact ⟨hhost, hsame ▸ hdecided⟩
  | terminated _ _ => exact ⟨(observe_same x).1, (observe_same x).2.2 ▸ hdecided⟩
  | hardStop _ | race _ | kill _ _ | decide _ _ | ends _ _ | finalize _ _ => exact ⟨rfl, hdecided⟩

/-- **Every action keeps it.** -/
theorem Informed.step (hs : Informed s) (hreach : Reaches Platform.step .init s) (h : Platform.step s a s') : Informed s' := by
  cases a with
  | platform b =>
    obtain ⟨t, ht, he⟩ := Option.map_eq_some_iff.mp h
    have hkeeps := fun i => step_keeps (i := i) ht
    subst he
    exact ⟨fun k d hk hrun => step_running ht hs.running hk hrun, fun j x hj => (hkeeps _).2 (hs.started j x hj), hs.decided,
      fun j x hj => (hs.knows j x hj).step h (hkeeps 0).1⟩
  | start k lease =>
    have h' := h
    obtain ⟨d, hk, h'⟩ := Option.bind_eq_some_iff.mp h'
    split at h' <;> cases h'
    rename_i hcan
    simp only [Platform.canStart, Bool.and_eq_true] at hcan
    refine ⟨hs.running, fun j x hj => ?_, fun j x hj => ?_, fun j x hj => ?_⟩ <;>
      rcases getElem?_concat_cases hj with rfl | hj
    · exact hs.running k d hk hcan.1.1
    · exact hs.started j x hj
    · nofun
    · exact hs.decided j x hj
    · exact trivial
    · exact (hs.knows j x hj).step h (.refl _)
  | host m input =>
    have h' := h
    obtain ⟨x, hm, h'⟩ := Option.bind_eq_some_iff.mp h'
    obtain ⟨⟨db', y, pc'⟩, hstep, h'⟩ := Option.bind_eq_some_iff.mp h'
    cases h'
    have heffect := host_does hstep
    have hkeeps := fun i => host_keeps (i := i) heffect
    have hsame := host_same heffect (hs.decided m x hm)
    have hgone (hexited : x.exited = true) : Passed Platform.step .init [Gone m] s :=
      @Passed.see _ _ _ _ _ _ [] hreach ⟨x, hm, hexited⟩
    have hknows := (hs.knows m x hm).effect (hs.decided m x hm) hgone heffect
    refine ⟨fun k d hk hrun => (hkeeps _).2 (hs.running k d hk hrun), fun j z hj => ?_, fun j z hj => ?_, fun j z hj => ?_⟩ <;>
      rcases getElem?_set_cases hm hj with ⟨he, rfl⟩ | ⟨-, hj⟩
    · rw [show (⟨y, pc'⟩ : HostRun).host = x.host from hsame.1]
      exact (hkeeps _).2 (hs.started m x hm)
    · exact (hkeeps _).2 (hs.started j z hj)
    · exact hsame.2
    · exact hs.decided j z hj
    · exact he ▸ hknows.step h (hkeeps 0).1
    · exact (hs.knows j z hj).step h (hkeeps 0).1

theorem informed_reachable (h : Reaches Platform.step .init s) : Informed s := by
  have hboth : Reaches Platform.step .init s ∧ Informed s := by
    refine Reaches.inv (I := fun s => Reaches Platform.step .init s ∧ Informed s) h ⟨.refl _, ?_, ?_, ?_, ?_⟩
      fun u a u' hu hstep => ⟨hu.1.snoc hstep, hu.2.step hu.1 hstep⟩
    · exact fun k d hk => nomatch hk
    · exact fun j x hj => nomatch hj
    · exact fun j x hj => nomatch hj
    · exact fun j x hj => nomatch hj
  exact hboth.2

/-- A step of a host that ends its unit is the finalizer's. -/
theorem ends_by_finalizer {db db' : Tables} {x y : Host} {pc pc' : HostPc} (h : HostEffect db x pc db' y pc')
    (hlive : ¬ db.isOver x.host.executionUnitId) (hover : db'.isOver x.host.executionUnitId) :
    ∃ kind r, pc = .finalizing kind ∧ fahes_finalize_unit db x.host.executionUnitId kind = some (db', r) := by
  have hwrites {db' : Tables} (hw : Writes db db') (hover : db'.isOver x.host.executionUnitId) : db.isOver x.host.executionUnitId := by
    cases hw <;> exact hover
  cases h with
  | aside hw _ _ => exact absurd (hwrites hw hover) hlive
  | hardStop _ | race _ | leave _ _ _ | terminated _ _ | kill _ _ => exact absurd hover hlive
  | decide _ hdecide => exact absurd (hwrites (decide_writes hdecide) hover) hlive
  | ends hw _ => exact absurd (hwrites hw hover) hlive
  | finalize hpc hf => exact ⟨_, _, hpc, hf⟩

/-- **When a host ends its unit**: its child has exited and the unit was `RUNNING`. When it is recorded `COMPLETED`, the hard stop
had not fired, the child had a result, and after it was gone one decision has read, in this order, a unit that is not over, the
time, a scan that has not ended early and at that time had time left, that no stop is pending and, with a lease to hold, that it is
open and renewed beyond the time that the renewal has read. -/
theorem host_finalizes (h : Reaches Platform.step .init s) {j : ℕ} {input : HostInput} {x : HostRun}
    (hstep : Platform.step s (.host j input) s') (hj : s.hosts[j]? = some x) (hlive : ¬ s.db.isOver x.host.executionUnitId)
    (hover : s'.db.isOver x.host.executionUnitId) :
    x.exited = true ∧ s.db.statusOf x.host.executionUnitId = some RUNNING ∧
      (s'.db.statusOf x.host.executionUnitId = some COMPLETED →
        x.hardStopFired = false ∧ (∃ o, x.observation = some o ∧ classifyFailure o = .COMPLETED) ∧
          ∃ scan now later, Passed Platform.step .init
            (leaseReads x.toHost later ++ causeReads j x.host.executionUnitId scan now) s) := by
  have hs := informed_reachable h
  obtain ⟨x', hj', h'⟩ := Option.bind_eq_some_iff.mp hstep
  obtain rfl := Option.some.inj (hj.symm.trans hj')
  obtain ⟨⟨db', y, pc'⟩, hdo, h'⟩ := Option.bind_eq_some_iff.mp h'
  cases h'
  obtain ⟨kind, r, hpc, hf⟩ := ends_by_finalizer (host_does hdo) hlive hover
  have hknows := hs.knows j x hj
  rw [hpc] at hknows
  obtain ⟨hexited, -, hcompleted⟩ := hknows
  obtain ⟨u, hu, ⟨hterm, -⟩ | ⟨hmay, -, units, -, hself, rfl⟩⟩ := finalize_does hf
  · exact absurd (isOver_of hu hterm) hlive
  refine ⟨hexited, ?_, fun hdone => ?_⟩
  · rcases hs.started j x hj with hrun | hover
    · exact hrun
    · exact absurd hover hlive
  · have hkind : kind = .COMPLETED := by
      have hst : kind.status = COMPLETED := Option.some.inj ((statusOf_eq hself).symm.trans hdone)
      cases kind <;> first | rfl | cases hst
    exact hcompleted hkind

/-- One unit, run by its host until it is to be recorded `COMPLETED`. -/
def completing : List Platform.Action :=
  runningDispatch.map .platform ++ [.start 0 (some 0), .host 0 .database, .host 0 (.run .ENGINE_RESULT), .host 0 .exits,
    .host 0 (.terminate true), .host 0 (.decides .database), .host 0 (.decides .database), .host 0 (.decides .database),
    .host 0 (.decides .database), .host 0 (.decides .database), .host 0 (.decides .database), .host 0 (.decides (.check none)),
    .host 0 (.decides .database)]

/-- What may come between the decision and the finalizer. -/
def overtaking : List Platform.Action :=
  [.platform (.event (.setStop ⟨.EXECUTION "unit-1", .REQUESTED, 0⟩)), .platform (.event (.closeLease 0)),
    .platform (.event (.setScan 0 ⟨.CANCELLED, some 0⟩))]

theorem host_finalizes_completed : ∃ s s' x, Platform.step s (.host 0 .database) s' ∧ s.hosts[0]? = some x ∧
    s'.db.statusOf 0 = some COMPLETED ∧ x.exited = true ∧ ∃ scan now later, Passed Platform.step .init
      (leaseReads x.toHost later ++ causeReads 0 0 scan now) s := by
  obtain ⟨s, hs, hrun, hp⟩ := Reaches.exists_of_play Platform.next (fun _ _ => true) .init completing
    (fun s => s.db.statusOf 0 = some RUNNING ∧ (s.hosts[0]?).any (fun x : HostRun => decide (x.host.executionUnitId = 0) &&
      (s.next (.host 0 .database)).any fun s' : Platform => decide (s'.db.statusOf 0 = some COMPLETED)) = true) (by decide)
  obtain ⟨x, hx, hp⟩ := (Option.any_eq_true _ _).mp hp
  obtain ⟨hunit, hp⟩ := Bool.and_eq_true_iff.mp hp
  obtain ⟨s', hs', hdone⟩ := (Option.any_eq_true _ _).mp hp
  have hunit : x.host.executionUnitId = 0 := by simpa using hunit
  have hdone : s'.db.statusOf 0 = some COMPLETED := by simpa using hdone
  have hlive : ¬ s.db.isOver x.host.executionUnitId := by
    rintro ⟨st, hst, hterm⟩
    rw [hunit, hrun] at hst
    cases hst
    cases hterm
  have hover : s'.db.isOver x.host.executionUnitId := ⟨COMPLETED, hunit ▸ hdone, rfl⟩
  obtain ⟨hexited, -, hcompleted⟩ := host_finalizes hs.of_guarded hs' hx hlive hover
  rw [hunit] at hcompleted
  obtain ⟨-, -, hreads⟩ := hcompleted hdone
  exact ⟨s, s', x, hs', hx, hdone, hexited, hreads⟩

/-- Between the decision and the finalizer a stop is requested, the lease is reclaimed and the scan cancelled. -/
theorem overtaken : ¬ ∀ s s' : Platform, Reaches Platform.step .init s → ∀ (j : ℕ) (x : HostRun) (u : ExecutionUnit),
    Platform.step s (.host j .database) s' → s.hosts[j]? = some x → s.db.units[x.host.executionUnitId]? = some u →
    u.status.isTerminal = false → s'.db.statusOf x.host.executionUnitId = some COMPLETED →
    (x.leaseClass = .L → s.db.hasOpenLease x.host.executionUnitId = true) ∧
      (∀ k ∈ s.db.stops, k.key ∉ s.db.coveringKeys u) ∧ InTime (s.db.planOf u) (s.db.scanOf u) s.db.clock := by
  intro hall
  obtain ⟨s, hs, hp⟩ := Reaches.exists_of_play Platform.next (fun _ _ => true) .init (completing ++ overtaking)
    (fun s => (s.hosts[0]?).any (fun x : HostRun => (s.db.units[x.host.executionUnitId]?).any fun u : ExecutionUnit =>
      decide (u.status = RUNNING ∧ x.leaseClass = .L ∧ s.db.hasOpenLease x.host.executionUnitId = false) &&
        (s.next (.host 0 .database)).any fun s' : Platform => decide (s'.db.statusOf x.host.executionUnitId = some COMPLETED)) = true)
    (by decide)
  obtain ⟨x, hx, hp⟩ := (Option.any_eq_true _ _).mp hp
  obtain ⟨u, hu, hp⟩ := (Option.any_eq_true _ _).mp hp
  obtain ⟨hu', hp⟩ := Bool.and_eq_true_iff.mp hp
  obtain ⟨s', hs', hdone⟩ := (Option.any_eq_true _ _).mp hp
  obtain ⟨hrun, hclass, hclosed⟩ := of_decide_eq_true hu'
  obtain ⟨hlease, -⟩ := hall s s' hs.of_guarded 0 x u hs' hx hu (by rw [hrun]; rfl) (of_decide_eq_true hdone)
  rw [hlease hclass] at hclosed
  cases hclosed

end Runs

end WebAudit.Execution
