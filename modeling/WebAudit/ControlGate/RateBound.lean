import Mathlib.Data.Rat.Floor

/-!
# The bound on probes

`Level1RateBound` keeps a bucket of tokens for each target, in exact rationals. A bucket that is full
again is dropped. A call happens at a real time and reads a clock, which may show anything.
-/

namespace WebAudit.ControlGate.RateBound

/-! ### The code -/

structure RateBoundOptions where
  maxRequestsPerSecond : Option ℚ := none
  burst : Option ℚ := none

structure Bucket where
  tokens : ℚ
  lastRefillMs : ℚ
  deriving DecidableEq

structure Level1RateBound where
  ratePerMs : ℚ
  capacity : ℚ

/-- The constructor, with the defaults of `CONTROL_GATE.level1ProbeRate`. -/
def Level1RateBound.new (options : RateBoundOptions) : Level1RateBound where
  capacity := options.burst.getD 12
  ratePerMs := options.maxRequestsPerSecond.getD 4 / 1000

variable {κ : Type}

/-- `Map<string, Bucket>`. -/
abbrev Buckets (κ : Type) := κ → Option Bucket

section Code

variable [DecidableEq κ]

/-- The bucket of a target, and the map after. -/
def refill (bound : Level1RateBound) (buckets : Buckets κ) (targetKey : κ) (nowMs : ℚ) : Bucket × Buckets κ :=
  match buckets targetKey with
  | none => (⟨bound.capacity, nowMs⟩, buckets)
  | some existing =>
    let elapsed := max 0 (nowMs - existing.lastRefillMs)
    let tokens := min bound.capacity (existing.tokens + elapsed * bound.ratePerMs)
    if bound.capacity ≤ tokens then (⟨bound.capacity, nowMs⟩, Function.update buckets targetKey none)
    else (⟨tokens, nowMs⟩, Function.update buckets targetKey (some ⟨tokens, nowMs⟩))

/-- What `tryAcquire` does with the bucket. -/
def acquireFrom (targetKey : κ) : Bucket × Buckets κ → Bool × Buckets κ
  | (bucket, buckets) =>
    if bucket.tokens < 1 then (false, buckets)
    else (true, Function.update buckets targetKey (some { bucket with tokens := bucket.tokens - 1 }))

def tryAcquire (bound : Level1RateBound) (buckets : Buckets κ) (targetKey : κ) (nowMs : ℚ) : Bool × Buckets κ :=
  acquireFrom targetKey (refill bound buckets targetKey nowMs)

/-- `Math.ceil((1 - tokens) / ratePerMs)`; `none` stands for `Infinity`. -/
def waitFor (bound : Level1RateBound) (bucket : Bucket) : Option ℤ :=
  if 1 ≤ bucket.tokens then some 0
  else if bound.ratePerMs = 0 then none
  else some ⌈(1 - bucket.tokens) / bound.ratePerMs⌉

def retryAfterMs (bound : Level1RateBound) (buckets : Buckets κ) (targetKey : κ) (nowMs : ℚ) : Option ℤ × Buckets κ :=
  let (bucket, buckets) := refill bound buckets targetKey nowMs
  (waitFor bound bucket, buckets)

end Code

/-! ### Runs -/

inductive Method where
  | tryAcquire
  | retryAfterMs
  deriving DecidableEq

structure Call (κ : Type) where
  method : Method
  targetKey : κ
  /-- When it happens. -/
  time : ℚ
  /-- What the clock shows then. -/
  nowMs : ℚ

inductive Answer where
  | acquired (b : Bool)
  | wait (ms : Option ℤ)
  deriving DecidableEq

section Runs

variable [DecidableEq κ]

def call (bound : Level1RateBound) (buckets : Buckets κ) (c : Call κ) : Answer × Buckets κ :=
  match c.method with
  | .tryAcquire => (tryAcquire bound buckets c.targetKey c.nowMs).map .acquired id
  | .retryAfterMs => (retryAfterMs bound buckets c.targetKey c.nowMs).map .wait id

/-- The calls with their answers. -/
def log (bound : Level1RateBound) : Buckets κ → List (Call κ) → List (Call κ × Answer)
  | _, [] => []
  | buckets, c :: rest => (c, (call bound buckets c).1) :: log bound (call bound buckets c).2 rest

def after (bound : Level1RateBound) (buckets : Buckets κ) (calls : List (Call κ)) : Buckets κ :=
  calls.foldl (fun buckets c => (call bound buckets c).2) buckets

end Runs

/-- No target has a bucket yet. -/
def noBuckets : Buckets κ := fun _ => none

/-! ### One bucket -/

/-- The bucket of a target after a refill. -/
def refilled (bound : Level1RateBound) (slot : Option Bucket) (nowMs : ℚ) : Bucket :=
  match slot with
  | none => ⟨bound.capacity, nowMs⟩
  | some b => ⟨min bound.capacity (b.tokens + max 0 (nowMs - b.lastRefillMs) * bound.ratePerMs), nowMs⟩

/-- What is kept of it. -/
def settled (bound : Level1RateBound) (slot : Option Bucket) (nowMs : ℚ) : Option Bucket :=
  match slot with
  | none => none
  | some _ => if bound.capacity ≤ (refilled bound slot nowMs).tokens then none else some (refilled bound slot nowMs)

/-- The answer to a call, from what was kept and what is kept after a refill. -/
def turnFrom (bound : Level1RateBound) (bucket : Bucket) (kept : Option Bucket) : Method → Answer × Option Bucket
  | .tryAcquire =>
    if bucket.tokens < 1 then (.acquired false, kept) else (.acquired true, some { bucket with tokens := bucket.tokens - 1 })
  | .retryAfterMs => (.wait (waitFor bound bucket), kept)

def turn (bound : Level1RateBound) (slot : Option Bucket) (c : Call κ) : Answer × Option Bucket :=
  turnFrom bound (refilled bound slot c.nowMs) (settled bound slot c.nowMs) c.method

/-- The calls of one target with their answers, from its bucket. -/
def slotLog (bound : Level1RateBound) : Option Bucket → List (Call κ) → List (Call κ × Answer)
  | _, [] => []
  | slot, c :: rest => (c, (turn bound slot c).1) :: slotLog bound (turn bound slot c).2 rest

theorem of_mem_slotLog {bound : Level1RateBound} {slot : Option Bucket} {calls : List (Call κ)} {e : Call κ × Answer}
    (h : e ∈ slotLog bound slot calls) : e.1 ∈ calls := by
  induction calls generalizing slot with
  | nil => cases h
  | cons c rest ih =>
    rcases List.mem_cons.mp h with rfl | h
    · exact List.mem_cons_self ..
    · exact List.mem_cons_of_mem _ (ih h)

section Slots

variable [DecidableEq κ] {bound : Level1RateBound} {buckets : Buckets κ}

theorem refill_eq (bound : Level1RateBound) (buckets : Buckets κ) (k : κ) (nowMs : ℚ) :
    refill bound buckets k nowMs =
      (refilled bound (buckets k) nowMs, Function.update buckets k (settled bound (buckets k) nowMs)) := by
  unfold refill
  cases h : buckets k with
  | none =>
    refine Prod.ext rfl ?_
    unfold settled
    dsimp only
    rw [← h, Function.update_eq_self]
  | some b =>
    unfold settled refilled
    dsimp only
    split_ifs with hfull
    · rw [min_eq_left (le_min_iff.mp hfull).2]
    · rfl

/-- **A call looks at the bucket of its target, and at no other one.** -/
theorem call_eq (bound : Level1RateBound) (buckets : Buckets κ) (c : Call κ) :
    call bound buckets c =
      ((turn bound (buckets c.targetKey) c).1, Function.update buckets c.targetKey (turn bound (buckets c.targetKey) c).2) := by
  unfold call turn turnFrom
  cases c.method with
  | tryAcquire =>
    unfold tryAcquire acquireFrom
    rw [refill_eq]
    dsimp only
    split_ifs
    · rfl
    · rw [Function.update_idem]
      rfl
  | retryAfterMs =>
    unfold retryAfterMs
    rw [refill_eq]
    rfl

theorem of_mem_log {calls : List (Call κ)} {e : Call κ × Answer} (h : e ∈ log bound buckets calls) : e.1 ∈ calls := by
  induction calls generalizing buckets with
  | nil => cases h
  | cons c rest ih =>
    rcases List.mem_cons.mp h with rfl | h
    · exact List.mem_cons_self ..
    · exact List.mem_cons_of_mem _ (ih h)

theorem log_filter (bound : Level1RateBound) (buckets : Buckets κ) (k : κ) (calls : List (Call κ)) :
    (log bound buckets calls).filter (fun e => decide (e.1.targetKey = k)) =
      slotLog bound (buckets k) (calls.filter fun c => decide (c.targetKey = k)) := by
  induction calls generalizing buckets with
  | nil => rfl
  | cons c rest ih =>
    unfold log
    rw [call_eq]
    by_cases hk : c.targetKey = k
    · subst hk
      rw [List.filter_cons_of_pos (by simp), List.filter_cons_of_pos (by simp), ih]
      dsimp only
      rw [Function.update_self]
      rfl
    · rw [List.filter_cons_of_neg (by simpa using hk), List.filter_cons_of_neg (by simpa using hk), ih]
      dsimp only
      rw [Function.update_of_ne (Ne.symm hk)]

/-- **A target's answers do not depend on calls for other targets.** -/
theorem log_filter_eq (bound : Level1RateBound) (buckets : Buckets κ) (k : κ) (calls : List (Call κ)) :
    (log bound buckets calls).filter (fun e => decide (e.1.targetKey = k)) =
      log bound buckets (calls.filter fun c => decide (c.targetKey = k)) := by
  have hall : (log bound buckets (calls.filter fun c => decide (c.targetKey = k))).filter (fun e => decide (e.1.targetKey = k)) =
      log bound buckets (calls.filter fun c => decide (c.targetKey = k)) :=
    List.filter_eq_self.mpr fun e he => (List.mem_filter.mp (of_mem_log he)).2
  rw [← hall, log_filter, log_filter, List.filter_filter]
  simp

end Slots

/-! ### Windows -/

/-- Between two calls time does not run backwards, and the clock shows no more time than has passed. -/
def Steady (c d : Call κ) : Prop := c.time ≤ d.time ∧ d.nowMs - c.nowMs ≤ d.time - c.time

/-- A token was spent, from `first` to `last`. -/
def SpentIn (first last : ℚ) (e : Call κ × Answer) : Prop := first ≤ e.1.time ∧ e.1.time ≤ last ∧ e.2 = .acquired true

instance (first last : ℚ) : DecidablePred (SpentIn first last : Call κ × Answer → Prop) := fun e => by
  unfold SpentIn
  infer_instance

/-- How many tokens were spent. -/
def spent (first last : ℚ) (entries : List (Call κ × Answer)) : ℕ := entries.countP fun e => decide (SpentIn first last e)

/-- At a reading of the clock a bucket was left with so many tokens at most. -/
def Holds (bound : Level1RateBound) (slot : Option Bucket) (tokens nowMs : ℚ) : Prop :=
  match slot with
  | none => bound.capacity ≤ tokens
  | some b => b.tokens ≤ tokens ∧ b.lastRefillMs = nowMs

section Windows

variable {bound : Level1RateBound} {slot : Option Bucket} {c d p : Call κ} {calls : List (Call κ)} {x nowMs first last : ℚ}

theorem refilled_le (bound : Level1RateBound) (slot : Option Bucket) (nowMs : ℚ) :
    (refilled bound slot nowMs).tokens ≤ bound.capacity := by
  unfold refilled
  split
  · exact le_rfl
  · exact min_le_left _ _

theorem refilled_lastRefillMs (bound : Level1RateBound) (slot : Option Bucket) (nowMs : ℚ) :
    (refilled bound slot nowMs).lastRefillMs = nowMs := by
  cases slot <;> rfl

theorem settled_holds (bound : Level1RateBound) (slot : Option Bucket) (nowMs : ℚ) :
    Holds bound (settled bound slot nowMs) (refilled bound slot nowMs).tokens nowMs := by
  unfold settled
  split
  · exact le_rfl
  · split_ifs with hfull
    · exact hfull
    · exact ⟨le_rfl, rfl⟩

/-- **What a call leaves**: a success takes one of at least one token, and nothing else takes any. -/
theorem turn_holds (bound : Level1RateBound) (slot : Option Bucket) (c : Call κ) :
    ((turn bound slot c).1 = .acquired true ∧ 1 ≤ (refilled bound slot c.nowMs).tokens ∧
      Holds bound (turn bound slot c).2 ((refilled bound slot c.nowMs).tokens - 1) c.nowMs) ∨
    ((turn bound slot c).1 ≠ .acquired true ∧ (turn bound slot c).2 = settled bound slot c.nowMs) := by
  unfold turn turnFrom
  cases c.method with
  | tryAcquire =>
    dsimp only
    split_ifs with hempty
    · exact .inr ⟨nofun, rfl⟩
    · exact .inl ⟨rfl, not_lt.mp hempty, le_rfl, refilled_lastRefillMs ..⟩
  | retryAfterMs => exact .inr ⟨nofun, rfl⟩

theorem Holds.mono {y : ℚ} (h : Holds bound slot x nowMs) (hxy : x ≤ y) : Holds bound slot y nowMs := by
  unfold Holds at h ⊢
  split at h
  · exact h.trans hxy
  · exact ⟨h.1.trans hxy, h.2⟩

/-- A refill adds no more than the time that has passed is worth. -/
theorem Holds.refilled_le (hrate : 0 ≤ bound.ratePerMs) (h : Holds bound slot x p.nowMs) (hsteady : Steady p c) :
    (refilled bound slot c.nowMs).tokens ≤ x + bound.ratePerMs * (c.time - p.time) := by
  have hgain : 0 ≤ bound.ratePerMs * (c.time - p.time) := mul_nonneg hrate (sub_nonneg.mpr hsteady.1)
  unfold Holds at h
  unfold refilled
  split at h
  · dsimp only
    linarith
  · obtain ⟨htokens, hlast⟩ := h
    dsimp only
    rw [hlast]
    have hmax : max 0 (c.nowMs - p.nowMs) ≤ c.time - p.time := max_le (sub_nonneg.mpr hsteady.1) hsteady.2
    have hmul := mul_le_mul_of_nonneg_right hmax hrate
    refine (min_le_right _ _).trans ?_
    linarith

theorem spent_cons_of_pos {e : Call κ × Answer} {entries : List (Call κ × Answer)} (h : SpentIn first last e) :
    spent first last (e :: entries) = spent first last entries + 1 :=
  List.countP_cons_of_pos (decide_eq_true h)

theorem spent_cons_of_neg {e : Call κ × Answer} {entries : List (Call κ × Answer)} (h : ¬ SpentIn first last e) :
    spent first last (e :: entries) = spent first last entries :=
  List.countP_cons_of_neg (by simpa using h)

theorem spent_eq_zero (h : ∀ c ∈ calls, last < c.time) : spent first last (slotLog bound slot calls) = 0 := by
  refine List.countP_eq_zero.mpr fun e he => ?_
  rw [decide_eq_true_eq]
  intro hspent
  exact absurd hspent.2.1 (not_le.mpr (h _ (of_mem_slotLog he)))

/-- **From one call on, no more is spent than the bucket was left with and the time up to the end is worth.** -/
theorem spent_after (hrate : 0 ≤ bound.ratePerMs) (hx : 0 ≤ x) (h : Holds bound slot x p.nowMs) (hlast : p.time ≤ last)
    (hsteady : (p :: calls).Pairwise Steady) :
    (spent first last (slotLog bound slot calls) : ℚ) ≤ x + bound.ratePerMs * (last - p.time) := by
  induction calls generalizing slot p x with
  | nil =>
    have htime := mul_nonneg hrate (sub_nonneg.mpr hlast)
    simp only [spent, slotLog, List.countP_nil, Nat.cast_zero]
    linarith
  | cons c rest ih =>
    obtain ⟨hp, hrest⟩ := List.pairwise_cons.mp hsteady
    have hpc := hp c (List.mem_cons_self ..)
    have hrefilled := h.refilled_le hrate hpc
    have hgain := mul_nonneg hrate (sub_nonneg.mpr hpc.1)
    have hsplit : bound.ratePerMs * (last - p.time) =
        bound.ratePerMs * (c.time - p.time) + bound.ratePerMs * (last - c.time) := by ring
    rcases lt_or_ge last c.time with hlate | hin
    · have htime := mul_nonneg hrate (sub_nonneg.mpr hlast)
      rw [spent_eq_zero, Nat.cast_zero]
      · linarith
      · intro d hd
        rcases List.mem_cons.mp hd with rfl | hd
        · exact hlate
        · exact hlate.trans_le ((List.pairwise_cons.mp hrest).1 d hd).1
    · rw [hsplit]
      rcases turn_holds bound slot c with ⟨-, hone, hleft⟩ | ⟨hno, hleft⟩
      · have hih := ih (sub_nonneg.mpr hone) hleft hin hrest
        by_cases hspent : SpentIn first last (c, (turn bound slot c).1)
        · rw [slotLog, spent_cons_of_pos hspent]
          push_cast
          linarith
        · rw [slotLog, spent_cons_of_neg hspent]
          linarith
      · -- the map may have begun with less than nothing
        have hih := ih (le_max_right _ _) ((hleft ▸ settled_holds ..).mono (le_max_left _ 0)) hin hrest
        have hmax : max (refilled bound slot c.nowMs).tokens 0 ≤ x + bound.ratePerMs * (c.time - p.time) :=
          max_le hrefilled (by linarith)
        rw [slotLog, spent_cons_of_neg fun hspent => hno hspent.2.2]
        linarith

/-- **In a window no more is spent than the capacity and the length of the window are worth.** -/
theorem spent_le (hrate : 0 ≤ bound.ratePerMs) (hcapacity : 0 ≤ bound.capacity) (hwindow : first ≤ last)
    (hsteady : calls.Pairwise Steady) (slot : Option Bucket) :
    (spent first last (slotLog bound slot calls) : ℚ) ≤ bound.capacity + bound.ratePerMs * (last - first) := by
  induction calls generalizing slot with
  | nil =>
    have htime := mul_nonneg hrate (sub_nonneg.mpr hwindow)
    simp only [spent, slotLog, List.countP_nil, Nat.cast_zero]
    linarith
  | cons c rest ih =>
    by_cases hspent : SpentIn first last (c, (turn bound slot c).1)
    · obtain ⟨hfirst, hlast, hyes⟩ := hspent
      rcases turn_holds bound slot c with ⟨-, hone, hleft⟩ | ⟨hno, -⟩
      · have hafter : (spent first last _ : ℚ) ≤ _ := spent_after hrate (sub_nonneg.mpr hone) hleft hlast hsteady
        have hfull := refilled_le bound slot c.nowMs
        have hlength := mul_le_mul_of_nonneg_left (sub_le_sub_left hfirst last) hrate
        rw [slotLog, spent_cons_of_pos ⟨hfirst, hlast, hyes⟩]
        push_cast
        linarith
      · exact absurd hyes hno
    · rw [slotLog, spent_cons_of_neg hspent]
      exact ih (List.pairwise_cons.mp hsteady).2 _

end Windows

/-! ### Full buckets -/

/-- A `refill` that keeps every bucket. -/
def refillKeeping [DecidableEq κ] (bound : Level1RateBound) (buckets : Buckets κ) (targetKey : κ) (nowMs : ℚ) :
    Bucket × Buckets κ :=
  let bucket := refilled bound (buckets targetKey) nowMs
  (bucket, Function.update buckets targetKey (some bucket))

/-- A call after that `refill`. -/
def callKeeping [DecidableEq κ] (bound : Level1RateBound) (buckets : Buckets κ) (c : Call κ) : Answer × Buckets κ :=
  match c.method with
  | .tryAcquire => (acquireFrom c.targetKey (refillKeeping bound buckets c.targetKey c.nowMs)).map .acquired id
  | .retryAfterMs => (refillKeeping bound buckets c.targetKey c.nowMs).map (fun bucket => .wait (waitFor bound bucket)) id

def logKeeping [DecidableEq κ] (bound : Level1RateBound) : Buckets κ → List (Call κ) → List (Call κ × Answer)
  | _, [] => []
  | buckets, c :: rest => (c, (callKeeping bound buckets c).1) :: logKeeping bound (callKeeping bound buckets c).2 rest

/-- The same bucket, or a full one that was dropped. -/
def Dropped (bound : Level1RateBound) (slot kept : Option Bucket) : Prop :=
  slot = kept ∨ slot = none ∧ ∃ b, kept = some b ∧ b.tokens = bound.capacity

section Dropping

variable [DecidableEq κ] {bound : Level1RateBound} {buckets keeping : Buckets κ} {slot kept : Option Bucket}

theorem callKeeping_eq (bound : Level1RateBound) (buckets : Buckets κ) (c : Call κ) :
    callKeeping bound buckets c =
      ((turnFrom bound (refilled bound (buckets c.targetKey) c.nowMs) (some (refilled bound (buckets c.targetKey) c.nowMs)) c.method).1,
        Function.update buckets c.targetKey
          (turnFrom bound (refilled bound (buckets c.targetKey) c.nowMs) (some (refilled bound (buckets c.targetKey) c.nowMs)) c.method).2) := by
  unfold callKeeping turnFrom
  cases c.method with
  | tryAcquire =>
    unfold acquireFrom refillKeeping
    dsimp only
    split_ifs
    · rfl
    · rw [Function.update_idem]
      rfl
  | retryAfterMs => rfl

/-- A full bucket is refilled like one that was never there. -/
theorem Dropped.refilled_eq (hrate : 0 ≤ bound.ratePerMs) (h : Dropped bound slot kept) (nowMs : ℚ) :
    refilled bound slot nowMs = refilled bound kept nowMs := by
  rcases h with rfl | ⟨rfl, b, rfl, hfull⟩
  · rfl
  · unfold refilled
    dsimp only
    rw [hfull, min_eq_left]
    have := mul_nonneg (le_max_left 0 (nowMs - b.lastRefillMs)) hrate
    linarith

theorem dropped_settled (bound : Level1RateBound) (slot : Option Bucket) (nowMs : ℚ) :
    Dropped bound (settled bound slot nowMs) (some (refilled bound slot nowMs)) := by
  unfold settled
  split
  · exact .inr ⟨rfl, _, rfl, rfl⟩
  · split_ifs with hfull
    · exact .inr ⟨rfl, _, rfl, le_antisymm (refilled_le ..) hfull⟩
    · exact .inl rfl

/-- What a call answers and leaves, with and without full buckets. -/
theorem Dropped.turnFrom (h : Dropped bound slot kept) (bucket : Bucket) (method : Method) :
    (turnFrom bound bucket slot method).1 = (turnFrom bound bucket kept method).1 ∧
      Dropped bound (turnFrom bound bucket slot method).2 (turnFrom bound bucket kept method).2 := by
  unfold RateBound.turnFrom
  cases method with
  | tryAcquire =>
    dsimp only
    split_ifs
    · exact ⟨rfl, h⟩
    · exact ⟨rfl, .inl rfl⟩
  | retryAfterMs => exact ⟨rfl, h⟩

/-- **Dropping full buckets changes no answer.** -/
theorem log_eq_logKeeping (hrate : 0 ≤ bound.ratePerMs) (calls : List (Call κ))
    (h : ∀ k, Dropped bound (buckets k) (keeping k)) : log bound buckets calls = logKeeping bound keeping calls := by
  induction calls generalizing buckets keeping with
  | nil => rfl
  | cons c rest ih =>
    obtain ⟨hanswer, hleft⟩ :=
      (dropped_settled bound (buckets c.targetKey) c.nowMs).turnFrom (refilled bound (buckets c.targetKey) c.nowMs) c.method
    unfold log logKeeping
    rw [call_eq, callKeeping_eq, ← (h c.targetKey).refilled_eq hrate]
    unfold turn
    rw [hanswer]
    refine congrArg (_ :: ·) (ih fun k => ?_)
    dsimp only
    by_cases hk : k = c.targetKey
    · subst hk
      rw [Function.update_self, Function.update_self]
      exact hleft
    · rw [Function.update_of_ne hk, Function.update_of_ne hk]
      exact h k

end Dropping

/-! ### Waiting -/

/-- At this reading of the clock the bucket has a token. -/
def Ready (bound : Level1RateBound) (slot : Option Bucket) (due : ℚ) : Prop :=
  ∀ b ∈ slot, 1 ≤ b.tokens + bound.ratePerMs * max 0 (due - b.lastRefillMs)

section Waiting

variable {bound : Level1RateBound} {slot : Option Bucket} {c : Call κ} {calls : List (Call κ)} {nowMs due : ℚ} {w : ℤ}

theorem Ready.refilled (hrate : 0 ≤ bound.ratePerMs) (hcapacity : 1 ≤ bound.capacity) (h : Ready bound slot due) (hdue : due ≤ nowMs) :
    1 ≤ (refilled bound slot nowMs).tokens := by
  unfold RateBound.refilled
  cases slot with
  | none => exact hcapacity
  | some b =>
    have hb := h b rfl
    have hmul := mul_le_mul_of_nonneg_left (max_le_max_left 0 (sub_le_sub_right hdue b.lastRefillMs)) hrate
    dsimp only
    refine le_min hcapacity ?_
    linarith

theorem of_mem_settled {b : Bucket} (h : b ∈ settled bound slot nowMs) :
    b = refilled bound slot nowMs ∧ b.tokens < bound.capacity := by
  unfold RateBound.settled at h
  split at h
  · cases h
  · split_ifs at h with hfull
    · cases h
    · cases h
      exact ⟨rfl, not_le.mp hfull⟩

/-- Being read does not put a bucket off, whatever the clock shows. -/
theorem Ready.settled (hrate : 0 ≤ bound.ratePerMs) (h : Ready bound slot due) (nowMs : ℚ) :
    Ready bound (settled bound slot nowMs) due := by
  intro b hb
  obtain ⟨rfl, hlt⟩ := of_mem_settled hb
  cases slot with
  | none => exact absurd hlt (lt_irrefl _)
  | some b =>
    have hready := h b rfl
    unfold RateBound.refilled at hlt ⊢
    dsimp only at hlt ⊢
    have hshort : max 0 (due - b.lastRefillMs) ≤ max 0 (nowMs - b.lastRefillMs) + max 0 (due - nowMs) := by
      refine max_le (add_nonneg (le_max_left ..) (le_max_left ..)) ?_
      have hpast := le_max_right 0 (nowMs - b.lastRefillMs)
      have hrest := le_max_right 0 (due - nowMs)
      linarith
    have hmul := mul_le_mul_of_nonneg_left hshort hrate
    rw [min_eq_right ((min_lt_iff.mp hlt).resolve_left (lt_irrefl _)).le]
    linarith

theorem ready_of_wait (hrate : 0 < bound.ratePerMs) (h : waitFor bound (refilled bound slot nowMs) = some w) :
    Ready bound (settled bound slot nowMs) (nowMs + w) := by
  intro b hb
  obtain ⟨rfl, -⟩ := of_mem_settled hb
  rw [refilled_lastRefillMs, add_sub_cancel_left]
  unfold waitFor at h
  split_ifs at h with hone hzero
  · have hgain := mul_nonneg hrate.le (le_max_left 0 (w : ℚ))
    linarith
  · cases h
    have hceil := (div_le_iff₀ hrate).mp (Int.le_ceil ((1 - (refilled bound slot nowMs).tokens) / bound.ratePerMs))
    have hmul := mul_le_mul_of_nonneg_left
      (le_max_right 0 ((⌈(1 - (refilled bound slot nowMs).tokens) / bound.ratePerMs⌉ : ℤ) : ℚ)) hrate.le
    linarith

variable [DecidableEq κ] {buckets : Buckets κ} {k : κ}

theorem after_ready (hrate : 0 ≤ bound.ratePerMs) (h : Ready bound (buckets k) due)
    (hno : ∀ e ∈ log bound buckets calls, e.1.targetKey = k → e.2 ≠ .acquired true) :
    Ready bound (after bound buckets calls k) due := by
  induction calls generalizing buckets with
  | nil => exact h
  | cons c rest ih =>
    refine ih ?_ fun e he => hno e (List.mem_cons_of_mem _ he)
    have hc := hno _ (List.mem_cons_self ..)
    dsimp only at hc ⊢
    rw [call_eq] at hc ⊢
    dsimp only at hc ⊢
    by_cases hk : c.targetKey = k
    · subst hk
      rw [Function.update_self]
      rcases turn_holds bound (buckets c.targetKey) c with ⟨hyes, -⟩ | ⟨-, hleft⟩
      · exact absurd hyes (hc rfl)
      · rw [hleft]
        exact h.settled hrate c.nowMs
    · rwa [Function.update_of_ne (Ne.symm hk)]

/-- **After the wait that was answered there is a token, if none was spent meanwhile.** -/
theorem acquired_after_wait (hrate : 0 < bound.ratePerMs) (hcapacity : 1 ≤ bound.capacity)
    (hwait : (retryAfterMs bound buckets k nowMs).1 = some w)
    (hno : ∀ e ∈ log bound (retryAfterMs bound buckets k nowMs).2 calls, e.1.targetKey = k → e.2 ≠ .acquired true)
    {later : ℚ} (hlater : nowMs + w ≤ later) :
    (tryAcquire bound (after bound (retryAfterMs bound buckets k nowMs).2 calls) k later).1 = true := by
  have hready : Ready bound ((retryAfterMs bound buckets k nowMs).2 k) (nowMs + w) := by
    unfold retryAfterMs at hwait ⊢
    rw [refill_eq] at hwait ⊢
    dsimp only at hwait ⊢
    rw [Function.update_self]
    exact ready_of_wait hrate hwait
  have hone := (after_ready hrate.le hready hno).refilled hrate.le hcapacity hlater
  unfold tryAcquire acquireFrom
  rw [refill_eq]
  dsimp only
  rw [if_neg (not_lt.mpr hone)]

end Waiting

/-! ### The bound -/

/-- What the bound is for. -/
structure Bounded (κ : Type) [DecidableEq κ] (bound : Level1RateBound) : Prop where
  /-- In a window of real time, if the clock shows no more time than passes between the calls for the target. -/
  window : ∀ (calls : List (Call κ)) (k : κ), (calls.filter fun c => decide (c.targetKey = k)).Pairwise Steady →
    ∀ first length : ℚ, 0 ≤ length →
      (spent first (first + length) ((log bound noBuckets calls).filter fun e => decide (e.1.targetKey = k)) : ℚ) ≤
        bound.capacity + bound.ratePerMs * length
  independent : ∀ (calls : List (Call κ)) (k : κ),
    (log bound noBuckets calls).filter (fun e => decide (e.1.targetKey = k)) =
      log bound noBuckets (calls.filter fun c => decide (c.targetKey = k))
  dropping : ∀ calls : List (Call κ), log bound noBuckets calls = logKeeping bound noBuckets calls
  waiting : ∀ (before between : List (Call κ)) (k : κ) (nowMs later : ℚ) (w : ℤ),
    (retryAfterMs bound (after bound noBuckets before) k nowMs).1 = some w →
    (∀ e ∈ log bound (retryAfterMs bound (after bound noBuckets before) k nowMs).2 between,
      e.1.targetKey = k → e.2 ≠ .acquired true) →
    nowMs + w ≤ later →
      (tryAcquire bound (after bound (retryAfterMs bound (after bound noBuckets before) k nowMs).2 between) k later).1 = true

/-- **A bound with a rate and a token keeps its word**, on a clock that is never set forward. -/
theorem bounded (κ : Type) [DecidableEq κ] {bound : Level1RateBound} (hrate : 0 < bound.ratePerMs) (hcapacity : 1 ≤ bound.capacity) :
    Bounded κ bound where
  window calls k hsteady first length hlength := by
    rw [log_filter]
    have hle : (spent first (first + length) _ : ℚ) ≤ _ :=
      spent_le hrate.le (zero_le_one.trans hcapacity) (le_add_of_nonneg_right hlength) hsteady (noBuckets k)
    rwa [add_sub_cancel_left] at hle
  independent calls k := log_filter_eq bound noBuckets k calls
  dropping calls := log_eq_logKeeping hrate.le calls fun _ => .inl rfl
  waiting _ _ _ _ _ _ hwait hno hlater := acquired_after_wait hrate hcapacity hwait hno hlater

theorem bounded_published : Bounded ℕ (Level1RateBound.new {}) :=
  bounded ℕ (by norm_num [Level1RateBound.new]) (by norm_num [Level1RateBound.new])

/-- A clock that is set back and forward again fills the bucket twice: thirteen probes at once. -/
theorem clock_refills : ¬ ∀ (calls : List (Call ℕ)) (k : ℕ), calls.Pairwise (fun c d => c.time ≤ d.time) →
    ∀ first length : ℚ, 0 ≤ length →
      (spent first (first + length) ((log (Level1RateBound.new {}) noBuckets calls).filter fun e => decide (e.1.targetKey = k)) : ℚ) ≤
        (Level1RateBound.new {}).capacity + (Level1RateBound.new {}).ratePerMs * length := by
  intro h
  have hcalls := h (List.replicate 12 ⟨.tryAcquire, 0, 0, 10000⟩ ++ [⟨.tryAcquire, 0, 0, 5000⟩, ⟨.tryAcquire, 0, 0, 10000⟩]) 0
    (by decide) 0 0 le_rfl
  exact absurd hcalls (by decide +kernel)

end WebAudit.ControlGate.RateBound
