import Mathlib.Data.Nat.Notation
import WebAudit.Lib.Runs

/-!
# The stop watcher

`startStopWatcher`: a poll looks for a pending stop, the first one that is found aborts the unit and sets a timer, and the timer escalates
unless the unit has acknowledged before.

An outstanding call is one that has been made and has not come back; calls come back in any order, and any of them may fail. What listens
to the abort may call the watcher before the timer is set. `trace` is what the claims about the watcher are told from.
-/

namespace WebAudit.Safety.Watcher

open WebAudit.Lib

/-! ### The code -/

inductive StopState where
  | REQUESTED
  | ACKNOWLEDGED
  | STOPPED
  deriving DecidableEq

inductive EscalatePc where
  /-- `onEscalate`. -/
  | hook
  | mark (attempt : ℕ)
  | pause (attempt : ℕ)
  deriving DecidableEq

/-- What has become of a stop, a number for its scope and the scope's id. -/
inductive Event where
  | unread
  /-- By this watcher. -/
  | stored (stop : ℕ)
  | storedElsewhere (stop : ℕ)
  | invoked (stop : ℕ)
  | recorded (stop : ℕ)
  deriving DecidableEq

structure State where
  /-- The rows of `KillSwitchState`. -/
  rows : ℕ → StopState
  aborted : Bool := false
  halted : Bool := false
  seen : Option ℕ := none
  acknowledged : Bool := false
  escalated : Bool := false
  /-- A stop was found and its timer is not set yet. -/
  arming : Bool := false
  timer : Bool := false
  /-- Calls of `findPendingStop`. -/
  finding : ℕ := 0
  acknowledging : Bool := false
  completing : ℕ := 0
  escalation : Option EscalatePc := none
  /-- The last comes first. -/
  trace : List Event := []

inductive Action where
  /-- `poll`, by the interval or by a message. -/
  | poll
  /-- `none`: the call throws. -/
  | found (stop : Option (Option ℕ))
  | arm
  | fire
  /-- `onEscalate` has returned, or thrown. -/
  | hooked
  | marked (ok : Bool)
  | waited
  | acknowledge
  | acknowledgeReturned (ok : Bool)
  | complete
  /-- With a lease in scope nothing is recorded. -/
  | completeReturned (ok live : Bool)
  | stop
  /-- Another unit, or the reconciler. -/
  | elsewhere (stop : ℕ)
  deriving DecidableEq

/-- `f07_ack_stop`. -/
def ackStop (rows : ℕ → StopState) (stop : ℕ) : ℕ → StopState := fun k => if k = stop ∧ rows k = .REQUESTED then .ACKNOWLEDGED else rows k

/-- `f07_record_stopped`, where it changes the row. -/
def markStopped (rows : ℕ → StopState) (stop : ℕ) : ℕ → StopState := fun k => if k = stop then .STOPPED else rows k

def escalate (s : State) (stop : ℕ) : State :=
  if s.escalated || s.acknowledged then s
  else { s with escalated := true, aborted := true, escalation := some .hook, trace := .invoked stop :: s.trace }

/-- After a call of `markEscalated`. -/
def afterMark (attempt : ℕ) (ok : Bool) : Option EscalatePc := if ok then none else some (.pause attempt)

/-- After the wait that follows a failed one. -/
def afterPause (attempt : ℕ) : Option EscalatePc := if attempt + 1 < 3 then some (.mark (attempt + 1)) else none

def next (s : State) : Action → Option State
  | .poll => if s.halted || s.seen.isSome then some s else some { s with finding := s.finding + 1 }
  | .found r =>
    if s.finding = 0 then none
    else
      match r with
      | none => some { s with finding := s.finding - 1, aborted := true, trace := .unread :: s.trace }
      | some none => some { s with finding := s.finding - 1 }
      | some (some stop) =>
        if s.halted || s.seen.isSome then some { s with finding := s.finding - 1 }
        else some { s with finding := s.finding - 1, seen := some stop, aborted := true, arming := true }
  | .arm => if s.arming then some { s with arming := false, timer := true } else none
  | .fire =>
    match s.seen with
    | some stop => if s.timer then some (escalate { s with timer := false } stop) else none
    | none => none
  | .hooked => if s.escalation = some .hook then some { s with escalation := some (.mark 0) } else none
  | .marked ok =>
    match s.escalation with
    | some (.mark attempt) => some { s with escalation := afterMark attempt ok }
    | _ => none
  | .waited =>
    match s.escalation with
    | some (.pause attempt) => some { s with escalation := afterPause attempt }
    | _ => none
  | .acknowledge =>
    if s.seen.isNone || s.acknowledged then some s else some { s with acknowledged := true, timer := false, acknowledging := true }
  | .acknowledgeReturned ok =>
    match s.seen with
    | some stop =>
      if s.acknowledging = false then none
      else if ok then some { s with acknowledging := false, rows := ackStop s.rows stop, trace := .stored stop :: s.trace }
      else some { s with acknowledging := false }
    | none => none
  | .complete => if s.seen.isNone then some s else some { s with completing := s.completing + 1 }
  | .completeReturned ok live =>
    match s.seen with
    | some stop =>
      if s.completing = 0 then none
      else if ok && !live && s.rows stop = .ACKNOWLEDGED then
        some { s with completing := s.completing - 1, rows := markStopped s.rows stop, trace := .recorded stop :: s.trace }
      else some { s with completing := s.completing - 1 }
    | none => none
  | .stop => some { s with halted := true, timer := false }
  | .elsewhere stop => some { s with rows := ackStop s.rows stop, trace := .storedElsewhere stop :: s.trace }

/-! ### What is kept -/

section Watcher

variable {rows : ℕ → StopState} {s s' : State} {a : Action} {k stop : ℕ}

def Event.isInvoked : Event → Bool
  | .invoked _ => true
  | _ => false

def Event.isStored : Event → Bool
  | .stored _ => true
  | _ => false

/-- No call is outstanding and no timer set, but for the interval of the polls. -/
def State.Quiet (s : State) : Prop :=
  s.finding = 0 ∧ s.arming = false ∧ s.timer = false ∧ s.acknowledging = false ∧ s.completing = 0 ∧ s.escalation = none

/-- The acknowledgement of a stop is stored, by this watcher or not. -/
def Acknowledged (rows : ℕ → StopState) (trace : List Event) (stop : ℕ) : Prop :=
  rows stop ≠ .REQUESTED ∨ .stored stop ∈ trace ∨ .storedElsewhere stop ∈ trace

/-- `onEscalate` is invoked once, and not after an acknowledgement was stored. -/
def InOrder (trace : List Event) : Prop := trace.Pairwise fun later earlier => later.isInvoked → earlier.isInvoked = false ∧ earlier.isStored = false

/-- No stop is lost. -/
structure Watched (rows : ℕ → StopState) (s : State) : Prop where
  aborted : s.seen.isSome = true ∨ .unread ∈ s.trace → s.aborted = true
  answered : ∀ stop, s.seen = some stop → s.halted = false → s.Quiet → .stored stop ∈ s.trace ∨ .invoked stop ∈ s.trace
  inOrder : InOrder s.trace
  recorded : ∀ stop, .recorded stop ∈ s.trace → Acknowledged rows s.trace stop

/-- What the flags stand for. -/
structure Sound (rows : ℕ → StopState) (s : State) : Prop where
  aborted : s.seen.isSome = true ∨ .unread ∈ s.trace → s.aborted = true
  waits : s.seen.isSome = true → s.halted = false → s.arming = true ∨ s.timer = true ∨ s.acknowledged = true ∨ s.escalated = true
  acknowledged : s.acknowledged = true → s.acknowledging = true ∨ (∃ k, s.seen = some k ∧ .stored k ∈ s.trace) ∨ s.escalated = true
  acknowledging : s.acknowledging = true → s.acknowledged = true
  stored : ∀ e ∈ s.trace, e.isStored = true → s.acknowledged = true
  escalated : s.escalated = true → ∃ k, s.seen = some k ∧ .invoked k ∈ s.trace
  invoked : ∀ e ∈ s.trace, e.isInvoked = true → s.escalated = true
  inOrder : InOrder s.trace
  moved : ∀ stop, s.rows stop ≠ .REQUESTED → Acknowledged rows s.trace stop
  recorded : ∀ stop, .recorded stop ∈ s.trace → Acknowledged rows s.trace stop

theorem Sound.watched (h : Sound rows s) : Watched rows s := by
  refine ⟨h.aborted, fun stop hseen hhalted hquiet => ?_, h.inOrder, h.recorded⟩
  obtain ⟨-, harming, htimer, hacknowledging, -, -⟩ := hquiet
  have hescalated : s.escalated = true → .invoked stop ∈ s.trace := by
    intro he
    obtain ⟨k, hk, hin⟩ := h.escalated he
    rw [hseen] at hk
    cases hk
    exact hin
  rcases h.waits (by rw [hseen]; rfl) hhalted with hw | hw | hw | hw
  · rw [harming] at hw
    cases hw
  · rw [htimer] at hw
    cases hw
  · rcases h.acknowledged hw with ha | ⟨k, hk, hin⟩ | he
    · rw [hacknowledging] at ha
      cases ha
    · rw [hseen] at hk
      cases hk
      exact .inl hin
    · exact .inr (hescalated he)
  · exact .inr (hescalated hw)

/-- One more event that is neither an invocation nor changes a row. -/
theorem Acknowledged.cons {trace : List Event} (h : Acknowledged rows trace stop) (e : Event) : Acknowledged rows (e :: trace) stop :=
  h.imp_right (Or.imp (List.mem_cons_of_mem _) (List.mem_cons_of_mem _))

theorem InOrder.cons {trace : List Event} {e : Event} (h : InOrder trace) (he : e.isInvoked = false) : InOrder (e :: trace) :=
  List.pairwise_cons.mpr ⟨fun _ _ hi => absurd hi (by simp [he]), h⟩

/-- Another event is told of. -/
theorem Sound.cons (h : Sound rows s) {e : Event} (hi : e.isInvoked = false) (hs : e.isStored = true → s.acknowledged = true)
    (hu : e = .unread → s.aborted = true) (hr : ∀ k, e = .recorded k → Acknowledged rows s.trace k) : Sound rows { s with trace := e :: s.trace } := by
  refine { h with
    aborted := fun ha => ?_
    acknowledged := fun ha => (h.acknowledged ha).imp_right (Or.imp_left fun ⟨k, hk, hin⟩ => ⟨k, hk, List.mem_cons_of_mem _ hin⟩)
    stored := fun e' he hs' => ?_
    escalated := fun he => (h.escalated he).imp fun _ hk => ⟨hk.1, List.mem_cons_of_mem _ hk.2⟩
    invoked := fun e' he hi' => ?_
    inOrder := h.inOrder.cons hi
    moved := fun k hk => (h.moved k hk).cons _
    recorded := fun k hk => ?_ }
  · rcases ha with ha | ha
    · exact h.aborted (.inl ha)
    · rcases List.mem_cons.mp ha with heq | ha
      · exact hu heq.symm
      · exact h.aborted (.inr ha)
  · rcases List.mem_cons.mp he with rfl | he
    · exact hs hs'
    · exact h.stored e' he hs'
  · rcases List.mem_cons.mp he with rfl | he
    · rw [hi] at hi'
      cases hi'
    · exact h.invoked e' he hi'
  · rcases List.mem_cons.mp hk with heq | hk
    · exact (hr k heq.symm).cons _
    · exact (h.recorded k hk).cons _

theorem Sound.escalate (h : Sound rows s) (hseen : s.seen = some stop) :
    Sound rows (escalate { s with timer := false } stop) := by
  unfold Watcher.escalate
  split
  · rename_i hover
    refine { h with waits := fun _ _ => .inr (.inr ?_) }
    exact (Bool.or_eq_true_iff.mp hover).symm
  · rename_i hfree
    obtain ⟨hescalated, hacknowledged⟩ : s.escalated = false ∧ s.acknowledged = false := by simpa using hfree
    refine { h with
      aborted := fun _ => rfl
      waits := fun _ _ => .inr (.inr (.inr rfl))
      acknowledged := fun _ => .inr (.inr rfl)
      stored := fun e he hs => ?_
      escalated := fun _ => ⟨stop, hseen, List.mem_cons_self⟩
      invoked := fun _ _ _ => rfl
      inOrder := List.pairwise_cons.mpr ⟨fun e he _ => ⟨?_, ?_⟩, h.inOrder⟩
      moved := fun k hk => (h.moved k hk).cons _
      recorded := fun k hk => (h.recorded k ((List.mem_cons.mp hk).resolve_left nofun)).cons _ }
    · rcases List.mem_cons.mp he with rfl | he
      · cases hs
      · exact h.stored e he hs
    · exact Bool.eq_false_iff.mpr fun hi => by simp [h.invoked e he hi] at hescalated
    · exact Bool.eq_false_iff.mpr fun hi => by simp [h.stored e he hi] at hacknowledged

/-- An acknowledgement that is stored. -/
theorem acknowledged_ackStop {trace : List Event} (h : ∀ k, s.rows k ≠ .REQUESTED → Acknowledged rows trace k)
    (hstop : Acknowledged rows trace stop) (hk : ackStop s.rows stop k ≠ .REQUESTED) : Acknowledged rows trace k := by
  unfold ackStop at hk
  split at hk
  · rename_i heq
    exact heq.1 ▸ hstop
  · exact h k hk

/-- **What a step keeps**, where no acknowledgement fails that nothing else answers for. -/
theorem Sound.next (h : Sound rows s) (hfair : a = .acknowledgeReturned false → s.escalated = true) (hnext : next s a = some s') : Sound rows s' := by
  unfold Watcher.next at hnext
  cases a with
  | poll =>
    dsimp only at hnext
    split at hnext <;> cases hnext
    · exact h
    · exact { h with }
  | found r =>
    dsimp only at hnext
    split at hnext
    · cases hnext
    · rcases r with _ | _ | stop
      · cases hnext
        have hread : Sound rows { s with finding := s.finding - 1, aborted := true } := { h with aborted := fun _ => rfl }
        exact hread.cons rfl nofun (fun _ => rfl) nofun
      · cases hnext
        exact { h with }
      · dsimp only at hnext
        split at hnext <;> cases hnext
        · exact { h with }
        · rename_i hfree
          obtain ⟨-, hseen⟩ : s.halted = false ∧ s.seen = none := by simpa using hfree
          refine { h with
            aborted := fun _ => rfl
            waits := fun _ _ => .inl rfl
            acknowledged := fun ha => (h.acknowledged ha).imp_right (Or.imp_left fun ⟨k, hk, _⟩ => by rw [hseen] at hk; cases hk)
            escalated := fun he => ?_ }
          obtain ⟨k, hk, -⟩ := h.escalated he
          rw [hseen] at hk
          cases hk
  | arm =>
    dsimp only at hnext
    split at hnext <;> cases hnext
    exact { h with waits := fun _ _ => .inr (.inl rfl) }
  | fire =>
    dsimp only at hnext
    split at hnext
    · rename_i stop hseen
      split at hnext <;> cases hnext
      exact h.escalate hseen
    · cases hnext
  | hooked =>
    dsimp only at hnext
    split at hnext <;> cases hnext
    exact { h with }
  | marked ok =>
    dsimp only at hnext
    split at hnext <;> cases hnext
    exact { h with }
  | waited =>
    dsimp only at hnext
    split at hnext <;> cases hnext
    exact { h with }
  | acknowledge =>
    dsimp only at hnext
    split at hnext <;> cases hnext
    · exact h
    · exact { h with
        waits := fun _ _ => .inr (.inr (.inl rfl))
        acknowledged := fun _ => .inl rfl
        acknowledging := fun _ => rfl
        stored := fun _ _ _ => rfl }
  | acknowledgeReturned ok =>
    dsimp only at hnext
    split at hnext
    · rename_i stop hseen
      split at hnext
      · cases hnext
      · rename_i hcalled
        have hacknowledged := h.acknowledging (by simpa using hcalled)
        split at hnext <;> cases hnext
        · have hstored : Sound rows { s with trace := .stored stop :: s.trace } := h.cons rfl (fun _ => hacknowledged) nofun nofun
          exact { hstored with
            acknowledged := fun _ => .inr (.inl ⟨stop, hseen, List.mem_cons_self⟩)
            acknowledging := nofun
            moved := fun k hk => acknowledged_ackStop hstored.moved (.inr (.inl List.mem_cons_self)) hk }
        · rename_i hfailed
          obtain rfl : ok = false := by simpa using hfailed
          exact { h with
            acknowledged := fun _ => .inr (.inr (hfair rfl))
            acknowledging := nofun }
    · cases hnext
  | complete =>
    dsimp only at hnext
    split at hnext <;> cases hnext
    · exact h
    · exact { h with }
  | completeReturned ok live =>
    dsimp only at hnext
    split at hnext
    · rename_i stop hseen
      split at hnext
      · cases hnext
      · split at hnext <;> cases hnext
        · rename_i hrow
          have hthere : Acknowledged rows s.trace stop := h.moved stop fun heq => by simp [heq] at hrow
          have hrecorded : Sound rows { s with trace := .recorded stop :: s.trace } :=
            h.cons rfl nofun nofun fun k heq => by cases heq; exact hthere
          refine { hrecorded with moved := fun k hk => ?_ }
          change markStopped s.rows stop k ≠ .REQUESTED at hk
          unfold markStopped at hk
          split at hk
          · rename_i heq
            subst heq
            exact hthere.cons _
          · exact hrecorded.moved k hk
        · exact { h with }
    · cases hnext
  | stop =>
    cases hnext
    exact { h with waits := nofun }
  | elsewhere stop =>
    cases hnext
    have htold : Sound rows { s with trace := .storedElsewhere stop :: s.trace } := h.cons rfl nofun nofun nofun
    exact { htold with moved := fun k hk => acknowledged_ackStop htold.moved (.inr (.inr List.mem_cons_self)) hk }

/-- **The watcher loses no stop** in a run in which no acknowledgement fails that was made before escalation. -/
theorem stop_watched (hrun : Reaches (Guarded (fun s a s' => next s a = some s') fun s a _ => a = .acknowledgeReturned false → s.escalated = true)
    { rows := rows } s) : Watched rows s := by
  refine (hrun.inv ?_ fun _ _ _ h hs => h.next hs.2 hs.1 : Sound rows s).watched
  exact ⟨by simp, by simp, nofun, nofun, nofun, nofun, nofun, .nil, fun _ hk => .inl hk, nofun⟩

/-- The timer comes first, then the unit acknowledges and has exited. -/
theorem stop_watched_escalated : ∃ s, s.seen = some 7 ∧ s.Quiet ∧ Event.recorded 7 ∈ s.trace ∧ Watched (fun _ => .REQUESTED) s := by
  obtain ⟨s, hrun, hseen, hquiet, hin⟩ := Reaches.exists_of_play next (fun s a => a ≠ .acknowledgeReturned false || s.escalated)
    { rows := fun _ => .REQUESTED }
    [.poll, .found (some (some 7)), .arm, .fire, .hooked, .marked true, .acknowledge, .acknowledgeReturned true, .complete, .completeReturned true false]
    (fun s => s.seen = some 7 ∧ (s.finding = 0 ∧ s.arming = false ∧ s.timer = false ∧ s.acknowledging = false ∧ s.completing = 0 ∧ s.escalation = none) ∧
      Event.recorded 7 ∈ s.trace) (by decide)
  refine ⟨s, hseen, hquiet, hin, stop_watched (hrun.mono fun _ _ _ h => ⟨h.1, fun heq => ?_⟩)⟩
  have := h.2
  simpa [heq] using this

/-- The acknowledgement fails, and the timer is cleared: nothing is stored, and nothing is escalated. -/
theorem acknowledgement_lost : ∃ s, Reaches (fun s a s' => next s a = some s') { rows := fun _ => .REQUESTED } s ∧
    s.seen = some 7 ∧ s.halted = false ∧ s.Quiet ∧ s.trace = [] ∧ ¬ Watched (fun _ => .REQUESTED) s := by
  obtain ⟨s, hrun, hseen, hhalted, hquiet, htrace⟩ := Reaches.exists_of_play next (fun _ _ => true)
    { rows := fun _ => .REQUESTED } [.poll, .found (some (some 7)), .arm, .acknowledge, .acknowledgeReturned false, .acknowledge]
    (fun s => s.seen = some 7 ∧ s.halted = false ∧
      (s.finding = 0 ∧ s.arming = false ∧ s.timer = false ∧ s.acknowledging = false ∧ s.completing = 0 ∧ s.escalation = none) ∧ s.trace = []) (by decide)
  refine ⟨s, hrun.of_guarded, hseen, hhalted, hquiet, htrace, fun h => ?_⟩
  have := h.answered 7 hseen hhalted hquiet
  simp [htrace] at this

end Watcher

end WebAudit.Safety.Watcher
