import WebAudit.Lib.Rows
import WebAudit.Lib.Runs

/-!
# The admission gate of the scan queue

`services/queue/admission-gate.ts`, and the part of `services/intake/create-scan.ts` that uses it. A request reads the
number of waiting jobs, reserves a place (`reserveScript`, which is one step), enqueues its job, and releases the
place. The script adds the reservations to a number that was read before it ran: a request that has enqueued and
released in between is in neither.

Any number of requests take these steps, in any order, while workers take jobs. The queue stays within its capacity
in every run in which no such count lets a request in that the real one would keep out (`within_capacity`).
-/

namespace WebAudit.Queue

open WebAudit.Lib

/-! ### The script -/

/-- A member of the sorted set: the reservation's id, and the end of its life. -/
structure Reservation where
  id : ℕ
  expiresAt : ℤ
  deriving DecidableEq

structure AdmissionResult where
  admitted : Bool
  effectiveDepth : ℕ
  deriving DecidableEq

/-- `ADMISSION_RESERVATION_TTL_MS`. -/
def admissionReservationTtlMs : ℤ := 30000

/-- `ZREMRANGEBYSCORE key -inf now`. -/
def prune (now : ℤ) (reservations : List Reservation) : List Reservation := reservations.filter fun r => now < r.expiresAt

/-- `RESERVE_SCRIPT`. -/
def reserveScript (now : ℤ) (capacity queueDepth id : ℕ) (reservations : List Reservation) : List Reservation × AdmissionResult :=
  let reservations := prune now reservations
  let effectiveDepth := queueDepth + reservations.length
  if capacity ≤ effectiveDepth then (reservations, ⟨false, effectiveDepth⟩)
  else (reservations ++ [⟨id, now + admissionReservationTtlMs⟩], ⟨true, effectiveDepth + 1⟩)

/-- `ZREM`. -/
def releaseScript (id : ℕ) (reservations : List Reservation) : List Reservation := reservations.filter fun r => r.id ≠ id

/-! ### Requests -/

inductive Outcome where
  | charged
  /-- `QueueAtCapacityError`, with the depth that it names. -/
  | queueAtCapacity (queueDepth : ℕ)
  | threw
  deriving DecidableEq

/-- Where a call of `createScan` is. -/
inductive Pc where
  | start
  | depthRead (queueDepth : ℕ)
  /-- In the `try`: the scan is created, charged and planned, and its job enqueued. -/
  | reserved
  /-- In the `finally`. -/
  | leaving (outcome : Outcome)
  | done (outcome : Outcome)
  deriving DecidableEq

/-- What comes of a call over the network. -/
inductive Reply where
  | answered
  /-- It had its effect, and the caller sees an error. -/
  | lost
  | unreached
  deriving DecidableEq

/-- A request makes one reservation at most: its id is the request's position. -/
structure System where
  /-- Jobs in `waiting` or `prioritized`. -/
  waiting : ℕ
  reservations : List Reservation
  requests : List Pc
  deriving DecidableEq

inductive Action where
  | arrive
  /-- `getQueueDepth`; a call that fails ends the request. -/
  | readDepth (r : ℕ) (answers : Bool)
  | reserve (r : ℕ) (now : ℤ) (reply : Reply)
  /-- Any exit ahead of the enqueueing: a refusal, or a failing database. -/
  | giveUp (r : ℕ)
  | enqueueFirstPhase (r : ℕ) (reply : Reply)
  | release (r : ℕ) (reply : Reply)
  /-- A worker takes a job. -/
  | take
  deriving DecidableEq

namespace System

variable (s : System)

def setPc (r : ℕ) (pc : Pc) : System := { s with requests := s.requests.set r pc }

/-- `admissionGate.reserve`, and what `createScan` makes of it. -/
def reserve (capacity r : ℕ) (now : ℤ) (queueDepth : ℕ) : Reply → System
  | .unreached => s.setPc r (.done (.queueAtCapacity queueDepth))
  | .lost =>
    { s with reservations := (reserveScript now capacity queueDepth r s.reservations).1 }.setPc r
      (.done (.queueAtCapacity queueDepth))
  | .answered =>
    match reserveScript now capacity queueDepth r s.reservations with
    | (reservations, ⟨false, effectiveDepth⟩) =>
      { s with reservations }.setPc r (.done (.queueAtCapacity effectiveDepth))
    | (reservations, ⟨true, _⟩) => { s with reservations }.setPc r .reserved

/-- A failure to enqueue is answered by a refund, and thrown. -/
def enqueueFirstPhase (r : ℕ) : Reply → System
  | .answered => { s with waiting := s.waiting + 1 }.setPc r (.leaving .charged)
  | .lost => { s with waiting := s.waiting + 1 }.setPc r (.leaving .threw)
  | .unreached => s.setPc r (.leaving .threw)

/-- `admissionGate.release`; its failure is logged. -/
def release (r : ℕ) (outcome : Outcome) : Reply → System
  | .unreached => s.setPc r (.done outcome)
  | _ => { s with reservations := releaseScript r s.reservations }.setPc r (.done outcome)

end System

def next (capacity : ℕ) (s : System) : Action → Option System
  | .arrive => some { s with requests := s.requests ++ [.start] }
  | .readDepth r answers =>
    match s.requests[r]? with
    | some .start => some (s.setPc r (if answers then .depthRead s.waiting else .done .threw))
    | _ => none
  | .reserve r now reply =>
    match s.requests[r]? with
    | some (.depthRead queueDepth) => some (s.reserve capacity r now queueDepth reply)
    | _ => none
  | .giveUp r =>
    match s.requests[r]? with
    | some .reserved => some (s.setPc r (.leaving .threw))
    | _ => none
  | .enqueueFirstPhase r reply =>
    match s.requests[r]? with
    | some .reserved => some (s.enqueueFirstPhase r reply)
    | _ => none
  | .release r reply =>
    match s.requests[r]? with
    | some (.leaving outcome) => some (s.release r outcome reply)
    | _ => none
  | .take => if 0 < s.waiting then some { s with waiting := s.waiting - 1 } else none

def step (capacity : ℕ) (s : System) (a : Action) (s' : System) : Prop := next capacity s a = some s'

/-- A queue that no request has come to yet. -/
def System.Start (capacity : ℕ) (s : System) : Prop := s.waiting ≤ capacity ∧ s.reservations = [] ∧ s.requests = []

/-! ### Who holds a place -/

/-- A request that has reserved and has not released. -/
def Pc.holds : Pc → Bool
  | .reserved => true
  | .leaving _ => true
  | _ => false

/-- The requests let in that have not enqueued. -/
def System.pending (s : System) : ℕ := s.requests.countP (· = .reserved)

/-- The gate's calls are answered. -/
def Answered : Action → Prop
  | .reserve _ _ reply => reply = .answered
  | .release _ reply => reply = .answered
  | _ => True

/-- No reservation expires while its request goes on. -/
def Unexpired (s : System) : Action → Prop
  | .reserve _ now _ => ∀ reservation ∈ s.reservations, now < reservation.expiresAt
  | _ => True

/-- No request is let in on the depth that it read when the jobs that wait and those on their way fill the queue. -/
def Current (capacity : ℕ) (s : System) : Action → Prop
  | .reserve r now _ => ∀ queueDepth, s.requests[r]? = some (.depthRead queueDepth) →
      queueDepth + (prune now s.reservations).length < capacity → s.waiting + s.pending < capacity
  | _ => True

/-- What is kept: places for all that is on its way, and no reservation but those of requests that will release them. -/
structure Kept (capacity : ℕ) (s : System) : Prop where
  room : s.waiting + s.pending ≤ capacity
  held : ∀ reservation ∈ s.reservations, ∃ pc, s.requests[reservation.id]? = some pc ∧ pc.holds = true

variable {capacity : ℕ} {s s' s₀ : System} {a : Action} {r : ℕ} {pc pc' : Pc}

/-- A request moves on, and with it the number on its way. -/
theorem System.pending_setPc (pc' : Pc) (h : s.requests[r]? = some pc) :
    (s.setPc r pc').pending + (if pc = .reserved then 1 else 0) = s.pending + if pc' = .reserved then 1 else 0 := by
  have := countP_set_add (fun pc => decide (pc = Pc.reserved)) pc' h
  simpa [pending, setPc] using this

/-- Reservations kept by requests that hold them still. -/
theorem Kept.held_set {reservations : List Reservation} (h : Kept capacity s) (hr : s.requests[r]? = some pc)
    (hsub : ∀ x ∈ reservations, x ∈ s.reservations ∨ x.id = r) (hkeep : pc'.holds = false → ∀ x ∈ reservations, x.id ≠ r) :
    ∀ x ∈ reservations, ∃ q, (s.requests.set r pc')[x.id]? = some q ∧ q.holds = true := by
  intro x hx
  have hlt := (List.getElem?_eq_some_iff.mp hr).1
  by_cases hid : x.id = r
  · refine ⟨pc', by rw [hid, List.getElem?_set_self hlt], ?_⟩
    by_contra hnot
    exact hkeep (by simpa using hnot) x hx hid
  · rcases hsub x hx with hmem | heq
    · obtain ⟨q, hq, hh⟩ := h.held x hmem
      exact ⟨q, by rw [List.getElem?_set_ne (Ne.symm hid), hq], hh⟩
    · exact absurd heq hid

/-- A request that holds nothing has no reservation. -/
theorem Kept.ne_of_free (h : Kept capacity s) (hr : s.requests[r]? = some pc) (hfree : pc.holds = false) :
    ∀ x ∈ s.reservations, x.id ≠ r := by
  rintro x hx rfl
  obtain ⟨q, hq, hh⟩ := h.held x hx
  obtain rfl := Option.some.inj (hr.symm.trans hq)
  simp [hfree] at hh

/-- The script adds the reservation that it grants, and no other. -/
theorem reserveScript_cases (now : ℤ) (capacity queueDepth id : ℕ) (reservations : List Reservation) :
    (∃ depth, reserveScript now capacity queueDepth id reservations = (prune now reservations, ⟨false, depth⟩)) ∨
      (queueDepth + (prune now reservations).length < capacity ∧
        ∃ depth, reserveScript now capacity queueDepth id reservations =
          (prune now reservations ++ [⟨id, now + admissionReservationTtlMs⟩], ⟨true, depth⟩)) := by
  unfold reserveScript
  dsimp only
  split
  · exact .inl ⟨_, rfl⟩
  · rename_i h
    exact .inr ⟨by omega, _, rfl⟩

theorem mem_of_mem_prune {now : ℤ} {reservations : List Reservation} {x : Reservation} (h : x ∈ prune now reservations) :
    x ∈ reservations := (List.mem_filter.mp h).1

theorem Kept.reserve (h : Kept capacity s) {now : ℤ} {queueDepth : ℕ} (hr : s.requests[r]? = some (.depthRead queueDepth))
    (hcur : Current capacity s (.reserve r now .answered)) : Kept capacity (s.reserve capacity r now queueDepth .answered) := by
  have hne := h.ne_of_free hr rfl
  have hroom := h.room
  unfold System.reserve
  dsimp only
  rcases reserveScript_cases now capacity queueDepth r s.reservations with ⟨depth, heq⟩ | ⟨hlt, depth, heq⟩
  · rw [heq]
    refine ⟨?_, h.held_set hr (fun x hx => .inl (mem_of_mem_prune hx)) fun _ x hx => hne x (mem_of_mem_prune hx)⟩
    have hp := System.pending_setPc (.done (.queueAtCapacity depth)) hr
    simp only [reduceCtorEq, if_false, Nat.add_zero] at hp
    show s.waiting + (s.setPc r (.done (.queueAtCapacity depth))).pending ≤ capacity
    omega
  · rw [heq]
    refine ⟨?_, h.held_set hr (fun x hx => ?_) (by simp [Pc.holds])⟩
    · have hp := System.pending_setPc .reserved hr
      simp only [reduceCtorEq, if_false, if_true, Nat.add_zero] at hp
      have := hcur queueDepth hr hlt
      show s.waiting + (s.setPc r .reserved).pending ≤ capacity
      omega
    · rcases List.mem_append.mp hx with hx | hx
      · exact .inl (mem_of_mem_prune hx)
      · obtain rfl := List.mem_singleton.mp hx
        exact .inr rfl

theorem Kept.enqueue (h : Kept capacity s) (hr : s.requests[r]? = some .reserved) (reply : Reply) :
    Kept capacity (s.enqueueFirstPhase r reply) := by
  have hroom := h.room
  have hheld : ∀ outcome, ∀ x ∈ s.reservations, ∃ q, (s.requests.set r (.leaving outcome))[x.id]? = some q ∧ q.holds = true :=
    fun outcome => h.held_set hr (fun x hx => .inl hx) (by simp [Pc.holds])
  have hpending : ∀ outcome, (s.setPc r (.leaving outcome)).pending + 1 = s.pending := fun outcome => by
    simpa using System.pending_setPc (.leaving outcome) hr
  cases reply with
  | answered =>
    refine ⟨?_, hheld .charged⟩
    have := hpending .charged
    show s.waiting + 1 + (s.setPc r (.leaving .charged)).pending ≤ capacity
    omega
  | lost =>
    refine ⟨?_, hheld .threw⟩
    have := hpending .threw
    show s.waiting + 1 + (s.setPc r (.leaving .threw)).pending ≤ capacity
    omega
  | unreached =>
    refine ⟨?_, hheld .threw⟩
    have := hpending .threw
    show s.waiting + (s.setPc r (.leaving .threw)).pending ≤ capacity
    omega

theorem Kept.release (h : Kept capacity s) {outcome : Outcome} (hr : s.requests[r]? = some (.leaving outcome)) :
    Kept capacity (s.release r outcome .answered) := by
  have hroom := h.room
  refine ⟨?_, h.held_set hr (fun x hx => .inl (List.mem_filter.mp hx).1) fun _ x hx => by simpa using (List.mem_filter.mp hx).2⟩
  have hp := System.pending_setPc (.done outcome) hr
  simp only [reduceCtorEq, if_false, Nat.add_zero] at hp
  show s.waiting + (s.setPc r (.done outcome)).pending ≤ capacity
  omega

/-- A request that holds nothing moves on to where it holds nothing. -/
theorem Kept.pass (h : Kept capacity s) (hr : s.requests[r]? = some pc) (hpc : pc.holds = false) (hpc' : pc'.holds = false) :
    Kept capacity (s.setPc r pc') := by
  have hroom := h.room
  refine ⟨?_, h.held_set hr (fun x hx => .inl hx) fun _ => h.ne_of_free hr hpc⟩
  have hp := System.pending_setPc pc' hr
  have hne : pc ≠ .reserved := by
    rintro rfl
    simp [Pc.holds] at hpc
  have hne' : pc' ≠ .reserved := by
    rintro rfl
    simp [Pc.holds] at hpc'
  rw [if_neg hne, if_neg hne'] at hp
  show s.waiting + (s.setPc r pc').pending ≤ capacity
  omega

theorem Kept.step (h : Kept capacity s) (hs : step capacity s a s') (hans : Answered a) (hcur : Current capacity s a) :
    Kept capacity s' := by
  have hroom := h.room
  unfold Queue.step next at hs
  cases a with
  | arrive =>
    obtain rfl := Option.some.inj hs
    refine ⟨by simpa [System.pending] using hroom, fun x hx => ?_⟩
    obtain ⟨q, hq, hh⟩ := h.held x hx
    exact ⟨q, by rw [List.getElem?_append_left (List.getElem?_eq_some_iff.mp hq).1, hq], hh⟩
  | readDepth r answers =>
    dsimp only at hs
    split at hs
    · rename_i hr
      obtain rfl := Option.some.inj hs
      exact h.pass hr rfl (by split <;> rfl)
    · cases hs
  | reserve r now reply =>
    obtain rfl : reply = .answered := hans
    dsimp only at hs
    split at hs
    · rename_i queueDepth hr
      obtain rfl := Option.some.inj hs
      exact h.reserve hr hcur
    · cases hs
  | giveUp r =>
    dsimp only at hs
    split at hs
    · rename_i hr
      obtain rfl := Option.some.inj hs
      exact h.enqueue hr .unreached
    · cases hs
  | enqueueFirstPhase r reply =>
    dsimp only at hs
    split at hs
    · rename_i hr
      obtain rfl := Option.some.inj hs
      exact h.enqueue hr reply
    · cases hs
  | release r reply =>
    obtain rfl : reply = .answered := hans
    dsimp only at hs
    split at hs
    · rename_i outcome hr
      obtain rfl := Option.some.inj hs
      exact h.release hr
    · cases hs
  | take =>
    dsimp only at hs
    split at hs
    · obtain rfl := Option.some.inj hs
      refine ⟨?_, h.held⟩
      show s.waiting - 1 + s.pending ≤ capacity
      omega
    · cases hs

/-- **The queue stays within its capacity**, and a request that has ended leaves no reservation behind, in every run in
which no stale depth lets a request into a queue that is full and the gate's calls are answered. -/
theorem within_capacity (h₀ : s₀.Start capacity)
    (h : Reaches (Guarded (step capacity) fun s a _ => Answered a ∧ Current capacity s a) s₀ s) :
    s.waiting ≤ capacity ∧
      ∀ r outcome, s.requests[r]? = some (.done outcome) → ∀ reservation ∈ s.reservations, reservation.id ≠ r := by
  obtain ⟨hw, hres, hreq⟩ := h₀
  have hstart : Kept capacity s₀ := ⟨by simpa [System.pending, hreq] using hw, by simp [hres]⟩
  have hkept : Kept capacity s := h.inv hstart fun _ _ _ hu hs => hu.step hs.1 hs.2.1 hs.2.2
  have hroom := hkept.room
  exact ⟨by omega, fun r outcome hr => hkept.ne_of_free hr rfl⟩

instance : DecidablePred Answered := fun a => by cases a <;> unfold Answered <;> infer_instance

instance (s : System) : DecidablePred (Unexpired s) := fun a => by cases a <;> unfold Unexpired <;> infer_instance

/-- Two requests and one place: both read an empty queue; the first has enqueued and released before the second reserves. -/
def overtaken : List Action :=
  [.arrive, .arrive, .readDepth 0 true, .readDepth 1 true, .reserve 0 0 .answered, .enqueueFirstPhase 0 .answered,
    .release 0 .answered, .reserve 1 10 .answered, .enqueueFirstPhase 1 .answered, .release 1 .answered]

/-- The queue is filled beyond its capacity, though the gate answers and no reservation expires. -/
theorem overfilled : ∃ s₀ s, s₀.Start 1 ∧ Reaches (Guarded (step 1) fun s a _ => Answered a ∧ Unexpired s a) s₀ s ∧
    s.waiting = 2 := by
  obtain ⟨s, hs, hp⟩ := Reaches.exists_of_play (next 1) (fun s a => decide (Answered a ∧ Unexpired s a)) ⟨0, [], []⟩
    overtaken (fun s => s.waiting = 2) (by decide)
  exact ⟨_, s, ⟨by simp, rfl, rfl⟩, hs.mono fun _ _ _ hu => ⟨hu.1, by simpa using hu.2⟩, hp⟩

/-- One request, let in and gone. -/
theorem within_capacity_one : ∃ s : System, s.waiting ≤ 1 ∧ s.requests[0]? = some (.done .charged) ∧ s.reservations = [] := by
  obtain ⟨s, hs, hp⟩ := Reaches.exists_of_play (next 1)
    (fun s a => decide (Answered a) && match a with
      | .reserve .. => decide (s.waiting + s.pending < 1)
      | _ => true) ⟨0, [], []⟩
    [.arrive, .readDepth 0 true, .reserve 0 0 .answered, .enqueueFirstPhase 0 .answered, .release 0 .answered]
    (fun s => s.requests[0]? = some (.done .charged) ∧ s.reservations = []) (by decide)
  have hstart : System.Start 1 ⟨0, [], []⟩ := ⟨by simp, rfl, rfl⟩
  refine ⟨s, (within_capacity hstart (hs.mono fun u a _ hu => ⟨hu.1, ?_, ?_⟩)).1, hp⟩
  · have := hu.2
    simp only [Bool.and_eq_true, decide_eq_true_eq] at this
    exact this.1
  · have := hu.2
    simp only [Bool.and_eq_true, decide_eq_true_eq] at this
    cases a <;> first | trivial | exact fun _ _ _ => by simpa using this.2

end WebAudit.Queue
