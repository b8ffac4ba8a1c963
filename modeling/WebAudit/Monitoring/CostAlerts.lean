import Mathlib.Data.List.Dedup
import WebAudit.Lib.Rows
import WebAudit.Lib.Runs

/-!
# Cost alerts

`evaluateCostAlerts`, any number of runs of it at once, against one table of events. The claim of an event is one statement without a
lock: it looks for the event and then inserts it, and other runs take their turns in between. Runs start at increasing times, so that no
two have a window in common. `none` in a row of spend is the global one.
-/

namespace WebAudit.Monitoring

open WebAudit.Lib

/-! ### The code -/

/-- The greatest `int`. -/
def int4Max : ℕ := 2147483647

structure AiInvocation where
  /-- That of its scan. -/
  userId : Option ℕ
  createdAt : ℤ
  costMicros : ℕ

inductive Scope where
  | GLOBAL
  | PER_USER
  | other (name : String)
  deriving DecidableEq

structure Threshold where
  scope : Scope
  windowMinutes : ℕ
  thresholdMicros : ℕ
  isEnabled : Bool
  positive : 0 < thresholdMicros
  /-- It is in a column of type `int`. -/
  fits : thresholdMicros ≤ int4Max
  deriving DecidableEq

structure CostAlertEvent where
  scope : Scope
  userId : Option ℕ
  windowStart : ℤ
  windowEnd : ℤ
  observedMicros : ℕ
  thresholdMicros : ℕ
  deriving DecidableEq

/-- What an event is found by. -/
def CostAlertEvent.key (e : CostAlertEvent) : Scope × Option ℕ × ℤ × ℤ := (e.scope, e.userId, e.windowStart, e.windowEnd)

def Threshold.windowStart (t : Threshold) (now : ℤ) : ℤ := now - t.windowMinutes * 60000

def Threshold.covers (t : Threshold) (now : ℤ) (i : AiInvocation) : Bool := t.windowStart now < i.createdAt && i.createdAt ≤ now

section Spend

variable (invocations : List AiInvocation) (now : ℤ) (t : Threshold)

def spend : ℕ := ((invocations.filter (t.covers now)).map (·.costMicros)).sum

def userSpend (userId : ℕ) : ℕ := ((invocations.filter fun i => t.covers now i && i.userId = some userId).map (·.costMicros)).sum

/-- The groups of the query, a scan's user each. -/
def users : List ℕ := ((invocations.filter (t.covers now)).filterMap (·.userId)).dedup

/-- The spend of all, or of one user. -/
def observed : Option ℕ → ℕ
  | none => spend invocations now t
  | some u => userSpend invocations now t u

/-- The spend at or above the threshold. -/
def due : List (Option ℕ × ℕ) :=
  let watched := match t.scope with
    | .GLOBAL => [none]
    | .PER_USER => (users invocations now t).map some
    | .other _ => []
  (watched.map fun user => (user, observed invocations now t user)).filter (t.thresholdMicros ≤ ·.2)

/-- `none`: a sum of the query is cast to `int` and does not fit. -/
def observe : Option (List (Option ℕ × ℕ)) :=
  if t.scope = .PER_USER ∧ (due invocations now t).any (int4Max < ·.2) = true then none else some (due invocations now t)

def eventOf (row : Option ℕ × ℕ) : CostAlertEvent := ⟨t.scope, row.1, t.windowStart now, now, row.2, t.thresholdMicros⟩

end Spend

inductive Pc where
  | evaluate (rest : List Threshold)
  /-- The next is looked for. -/
  | claim (t : Threshold) (rows : List (Option ℕ × ℕ)) (rest : List Threshold)
  /-- It was not there. -/
  | insert (t : Threshold) (row : Option ℕ × ℕ) (rows : List (Option ℕ × ℕ)) (rest : List Threshold)
  | done
  /-- A statement has thrown. -/
  | failed
  deriving DecidableEq

structure Run where
  now : ℤ
  pc : Pc
  events : List CostAlertEvent

def Run.turn (invocations : List AiInvocation) (table : List CostAlertEvent) (r : Run) : Option (Run × List CostAlertEvent) :=
  match r.pc with
  | .evaluate [] => some ({ r with pc := .done }, [])
  | .evaluate (t :: rest) =>
    match observe invocations r.now t with
    | none => some ({ r with pc := .failed }, [])
    | some rows => some ({ r with pc := .claim t rows rest }, [])
  | .claim _ [] rest => some ({ r with pc := .evaluate rest }, [])
  | .claim t (row :: rows) rest =>
    -- the value of a parameter that goes into a column of type `int`
    if int4Max < row.2 then some ({ r with pc := .failed }, [])
    else if (eventOf r.now t row).key ∈ table.map (·.key) then some ({ r with pc := .claim t rows rest }, [])
    else some ({ r with pc := .insert t row rows rest }, [])
  | .insert t row rows rest =>
    some ({ r with pc := .claim t rows rest, events := r.events ++ [eventOf r.now t row] }, [eventOf r.now t row])
  | .done => none
  | .failed => none

structure Monitor where
  events : List CostAlertEvent
  runs : List Run

inductive Action where
  | start (now : ℤ)
  | turn (i : ℕ)

def next (thresholds : List Threshold) (invocations : List AiInvocation) (s : Monitor) : Action → Option Monitor
  | .start now =>
    if s.runs.all (·.now < now) then some { s with runs := s.runs ++ [⟨now, .evaluate (thresholds.filter (·.isEnabled)), []⟩] } else none
  | .turn i =>
    match s.runs[i]? with
    | none => none
    | some r => (r.turn invocations s.events).map fun (r', news) => ⟨s.events ++ news, s.runs.set i r'⟩

/-! ### What is due -/

section Due

variable {invocations : List AiInvocation} {now : ℤ} {t : Threshold} {ts : List Threshold} {user : Option ℕ}

def Threshold.Watches (t : Threshold) (user : Option ℕ) : Prop := t.scope = .GLOBAL ∧ user = none ∨ t.scope = .PER_USER ∧ user ≠ none

/-- The spend in the window of the threshold is at or above it. -/
def Breached (invocations : List AiInvocation) (now : ℤ) (t : Threshold) (user : Option ℕ) : Prop :=
  t.Watches user ∧ t.thresholdMicros ≤ observed invocations now t user

/-- No spend in the window is more than an `int`. -/
def Fits (invocations : List AiInvocation) (now : ℤ) (t : Threshold) : Prop :=
  ∀ user, t.Watches user → observed invocations now t user ≤ int4Max

theorem mem_users {u : ℕ} (h : 0 < userSpend invocations now t u) : u ∈ users invocations now t := by
  by_contra hnot
  refine Nat.ne_of_gt h ?_
  unfold userSpend
  rw [List.filter_eq_nil_iff.mpr fun i hi hcond => hnot ?_]
  · rfl
  · obtain ⟨hcovers, huser⟩ := Bool.and_eq_true_iff.mp hcond
    exact List.mem_dedup.mpr (List.mem_filterMap.mpr ⟨i, List.mem_filter.mpr ⟨hi, hcovers⟩, of_decide_eq_true huser⟩)

/-- A user without an invocation in the window is not in the query's answer, and has spent nothing. -/
theorem mem_due_iff {row : Option ℕ × ℕ} :
    row ∈ due invocations now t ↔ Breached invocations now t row.1 ∧ row.2 = observed invocations now t row.1 := by
  obtain ⟨user, amount⟩ := row
  unfold due Breached Threshold.Watches
  rcases hscope : t.scope with _ | _ | name
  · cases user with
    | none =>
      simp only [List.map_cons, List.map_nil, List.mem_filter, List.mem_singleton, Prod.mk.injEq, true_and, decide_eq_true_eq]
      exact ⟨fun ⟨heq, hle⟩ => ⟨⟨.inl trivial, heq ▸ hle⟩, heq⟩, fun ⟨⟨_, hle⟩, heq⟩ => ⟨heq, heq ▸ hle⟩⟩
    | some u => simp
  · cases user with
    | none => simp
    | some u =>
      simp only [List.map_map, List.mem_filter, List.mem_map, Function.comp_apply, Prod.mk.injEq, Option.some.injEq, decide_eq_true_eq]
      constructor
      · rintro ⟨⟨u', -, rfl, rfl⟩, hle⟩
        exact ⟨⟨.inr ⟨trivial, nofun⟩, hle⟩, rfl⟩
      · rintro ⟨⟨-, hle⟩, rfl⟩
        exact ⟨⟨u, mem_users (Nat.lt_of_lt_of_le t.positive hle), rfl, rfl⟩, hle⟩
  · simp

theorem fits_iff : Fits invocations now t ↔ ∀ row ∈ due invocations now t, row.2 ≤ int4Max := by
  constructor
  · intro h row hrow
    obtain ⟨⟨hwatches, -⟩, heq⟩ := mem_due_iff.mp hrow
    exact heq ▸ h _ hwatches
  · intro h user hwatches
    by_contra hlt
    have hle := Nat.le_trans t.fits (Nat.le_of_lt (Nat.lt_of_not_le hlt))
    exact hlt (h (user, _) (mem_due_iff.mpr ⟨⟨hwatches, hle⟩, rfl⟩))

theorem nodup_due : ((due invocations now t).map (·.1)).Nodup := by
  refine List.Nodup.sublist (List.filter_sublist.map _) ?_
  rw [List.map_map]
  change (List.map (fun user => user) _).Nodup
  rw [List.map_id']
  split
  · exact List.nodup_singleton _
  · exact (List.nodup_dedup _).map fun _ _ heq => Option.some.inj heq
  · exact List.nodup_nil

/-- The events that are due, over and above none. -/
def alerts (invocations : List AiInvocation) (now : ℤ) (ts : List Threshold) : List CostAlertEvent :=
  ts.flatMap fun t => (due invocations now t).map (eventOf now t)

theorem nodup_alerts (invocations : List AiInvocation) (now : ℤ) (h : (ts.map (·.scope)).Nodup) : ((alerts invocations now ts).map (·.key)).Nodup := by
  unfold alerts
  rw [List.map_flatMap, List.nodup_flatMap]
  refine ⟨fun t _ => ?_, (List.pairwise_map.mp h).imp fun hne => ?_⟩
  · have hinj : Function.Injective fun user : Option ℕ => (t.scope, user, t.windowStart now, now) := fun _ _ heq => by simpa using heq
    rw [List.map_map]
    have hkeys := List.Nodup.map hinj (@nodup_due invocations now t)
    rw [List.map_map] at hkeys
    exact hkeys
  · simp only [Function.onFun, List.disjoint_left, List.mem_map, not_exists, not_and]
    rintro k ⟨_, ⟨row, -, rfl⟩, rfl⟩ _ ⟨row', -, rfl⟩ heq
    exact hne (congrArg Prod.fst heq).symm

end Due

/-! ### One run -/

section Runs

variable {thresholds : List Threshold} {invocations : List AiInvocation} {before table news : List CostAlertEvent} {r r' : Run}

/-- What is inserted where these events are there from the beginning. -/
def fresh (before : List CostAlertEvent) (events : List CostAlertEvent) : List CostAlertEvent :=
  events.filter fun e => e.key ∉ before.map (·.key)

/-- How far a run has come: it has inserted all that was due before its place. -/
def Run.At (enabled : List Threshold) (invocations : List AiInvocation) (before : List CostAlertEvent) (r : Run) : Prop :=
  match r.pc with
  | .evaluate rest => ∃ ts, enabled = ts ++ rest ∧ (∀ t ∈ ts, Fits invocations r.now t) ∧ r.events = fresh before (alerts invocations r.now ts)
  | .claim t rows rest => ∃ ts past, enabled = ts ++ t :: rest ∧ (∀ t ∈ ts, Fits invocations r.now t) ∧ due invocations r.now t = past ++ rows ∧
      (∀ row ∈ past, row.2 ≤ int4Max) ∧ r.events = fresh before (alerts invocations r.now ts ++ past.map (eventOf r.now t))
  | .insert t row rows rest => ∃ ts past, enabled = ts ++ t :: rest ∧ (∀ t ∈ ts, Fits invocations r.now t) ∧
      due invocations r.now t = past ++ row :: rows ∧ (∀ row' ∈ past ++ [row], row'.2 ≤ int4Max) ∧ (eventOf r.now t row).key ∉ before.map (·.key) ∧
      r.events = fresh before (alerts invocations r.now ts ++ past.map (eventOf r.now t))
  | .done => (∀ t ∈ enabled, Fits invocations r.now t) ∧ r.events = fresh before (alerts invocations r.now enabled)
  | .failed => ¬ ∀ t ∈ enabled, Fits invocations r.now t

/-- The events that are found are those from the beginning and the run's own. -/
def Run.Sees (before table : List CostAlertEvent) (r : Run) : Prop :=
  ∀ k : Scope × Option ℕ × ℤ × ℤ, k.2.2.2 = r.now → (k ∈ table.map (·.key) ↔ k ∈ before.map (·.key) ∨ k ∈ r.events.map (·.key))

theorem alerts_append (ts ts' : List Threshold) (now : ℤ) : alerts invocations now (ts ++ ts') = alerts invocations now ts ++ alerts invocations now ts' :=
  List.flatMap_append

theorem fresh_append (events events' : List CostAlertEvent) : fresh before (events ++ events') = fresh before events ++ fresh before events' :=
  List.filter_append _ _

theorem fresh_singleton (e : CostAlertEvent) : fresh before [e] = if e.key ∈ before.map (·.key) then [] else [e] := by
  unfold fresh
  rw [List.filter_singleton]
  by_cases h : e.key ∈ before.map (·.key) <;> simp only [h, not_true_eq_false, not_false_eq_true, decide_true, decide_false] <;> rfl

theorem Run.turn_now (h : r.turn invocations table = some (r', news)) : r'.now = r.now ∧ r'.events = r.events ++ news ∧ ∀ e ∈ news, e.windowEnd = r.now := by
  unfold Run.turn at h
  split at h
  · cases h
    simp
  · split at h <;> cases h <;> simp
  · cases h
    simp
  · split at h
    · cases h
      simp
    · split at h <;> cases h <;> simp
  · cases h
    simp [eventOf]
  · cases h
  · cases h

/-- **What a turn of a run comes to.** -/
theorem Run.At.turn {enabled : List Threshold} (hs : (enabled.map (·.scope)).Nodup) (h : r.At enabled invocations before) (hsees : r.Sees before table)
    (hturn : r.turn invocations table = some (r', news)) : r'.At enabled invocations before := by
  unfold Run.turn at hturn
  unfold Run.At at h
  split at hturn
  · rename_i hpc
    cases hturn
    rw [hpc] at h
    obtain ⟨ts, rfl, hfits, hevents⟩ := h
    rw [List.append_nil]
    exact ⟨hfits, hevents⟩
  · rename_i t rest hpc
    rw [hpc] at h
    obtain ⟨ts, rfl, hfits, hevents⟩ := h
    split at hturn
    · rename_i hnone
      cases hturn
      unfold observe at hnone
      split at hnone
      · rename_i hover
        obtain ⟨row, hrow, hlt⟩ := List.any_eq_true.mp hover.2
        exact fun hall => Nat.not_le_of_lt (of_decide_eq_true hlt) (fits_iff.mp (hall t (by simp)) row hrow)
      · cases hnone
    · rename_i rows hrows
      cases hturn
      unfold observe at hrows
      split at hrows
      · cases hrows
      · obtain rfl := Option.some.inj hrows
        exact ⟨ts, [], rfl, hfits, rfl, nofun, by rw [List.map_nil, List.append_nil]; exact hevents⟩
  · rename_i t rest hpc
    cases hturn
    rw [hpc] at h
    obtain ⟨ts, past, rfl, hfits, hdue, hpast, hevents⟩ := h
    rw [List.append_nil] at hdue
    refine ⟨ts ++ [t], by simp, ?_, ?_⟩
    · intro t' ht'
      rcases List.mem_append.mp ht' with ht' | ht'
      · exact hfits t' ht'
      · obtain rfl := List.mem_singleton.mp ht'
        exact fits_iff.mpr (hdue ▸ hpast)
    · rw [alerts_append, alerts, alerts, List.flatMap_singleton, hdue]
      exact hevents
  · rename_i t row rows rest hpc
    rw [hpc] at h
    obtain ⟨ts, past, rfl, hfits, hdue, hpast, hevents⟩ := h
    split at hturn
    · rename_i hlt
      cases hturn
      exact fun hall => Nat.not_le_of_lt hlt (fits_iff.mp (hall t (by simp)) row (by rw [hdue]; simp))
    · rename_i hle
      have hpast' : ∀ row' ∈ past ++ [row], row'.2 ≤ int4Max := by
        intro row' hrow'
        rcases List.mem_append.mp hrow' with hrow' | hrow'
        · exact hpast row' hrow'
        · obtain rfl := List.mem_singleton.mp hrow'
          exact Nat.le_of_not_lt hle
      -- no event of the run itself has this key
      have hown : (eventOf r.now t row).key ∉ r.events.map (·.key) := by
        intro hmem
        have hnodup := nodup_alerts invocations r.now hs
        have hsplit : alerts invocations r.now (ts ++ t :: rest) =
            alerts invocations r.now ts ++ past.map (eventOf r.now t) ++ (eventOf r.now t row :: (rows.map (eventOf r.now t) ++ alerts invocations r.now rest)) := by
          unfold alerts
          rw [List.flatMap_append, List.flatMap_cons, hdue]
          simp
        rw [hsplit, List.map_append, List.map_cons] at hnodup
        refine (List.nodup_append.mp hnodup).2.2 _ ?_ _ List.mem_cons_self rfl
        rw [hevents] at hmem
        exact (List.filter_sublist.map _).subset hmem
      split at hturn
      · rename_i hthere
        cases hturn
        refine ⟨ts, past ++ [row], rfl, hfits, by simpa using hdue, hpast', ?_⟩
        have hbefore := ((hsees _ rfl).mp hthere).resolve_right hown
        rw [List.map_append, ← List.append_assoc, fresh_append, ← hevents, List.map_singleton, fresh_singleton, if_pos hbefore, List.append_nil]
      · rename_i hnot
        cases hturn
        exact ⟨ts, past, rfl, hfits, hdue, hpast', fun hb => hnot ((hsees _ rfl).mpr (.inl hb)), hevents⟩
  · rename_i t row rows rest hpc
    cases hturn
    rw [hpc] at h
    obtain ⟨ts, past, rfl, hfits, hdue, hpast, hnot, hevents⟩ := h
    refine ⟨ts, past ++ [row], rfl, hfits, by simpa using hdue, hpast, ?_⟩
    rw [List.map_append, ← List.append_assoc, fresh_append, ← hevents, List.map_singleton, fresh_singleton, if_neg hnot]
  · cases hturn
  · cases hturn

end Runs

/-! ### All of them -/

section System

variable {thresholds : List Threshold} {invocations : List AiInvocation} {before : List CostAlertEvent} {s s' : Monitor} {a : Action} {r : Run}

def enabled (thresholds : List Threshold) : List Threshold := thresholds.filter (·.isEnabled)

/-- Each run is where it is, and of the events that have been inserted those with its time are its own. -/
structure Sound (thresholds : List Threshold) (invocations : List AiInvocation) (before : List CostAlertEvent) (s : Monitor) : Prop where
  increasing : s.runs.Pairwise (·.now < ·.now)
  at? : ∀ r ∈ s.runs, r.At (enabled thresholds) invocations before
  events : ∃ news, s.events = before ++ news ∧ (∀ r ∈ s.runs, news.filter (·.windowEnd = r.now) = r.events) ∧ ∀ e ∈ news, ∃ r ∈ s.runs, e.windowEnd = r.now

theorem Sound.sees (h : Sound thresholds invocations before s) (hr : r ∈ s.runs) : r.Sees before s.events := by
  obtain ⟨news, hevents, hown, -⟩ := h.events
  rintro ⟨scope, user, start, _⟩ rfl
  rw [hevents, List.map_append, List.mem_append, ← hown r hr]
  refine or_congr_right ?_
  simp only [List.mem_map, List.mem_filter, decide_eq_true_eq]
  exact exists_congr fun e => ⟨fun ⟨he, hk⟩ => ⟨⟨he, congrArg (·.2.2.2) hk⟩, hk⟩, fun ⟨⟨he, _⟩, hk⟩ => ⟨he, hk⟩⟩

theorem Sound.next (hs : (thresholds.map (·.scope)).Nodup) (h : Sound thresholds invocations before s)
    (hnext : next thresholds invocations s a = some s') : Sound thresholds invocations before s' := by
  have henabled : ((enabled thresholds).map (·.scope)).Nodup := hs.sublist (List.filter_sublist.map _)
  obtain ⟨news, hevents, hown, hall⟩ := h.events
  cases a with
  | start now =>
    unfold Monitoring.next at hnext
    dsimp only at hnext
    split at hnext
    · rename_i hlater
      cases hnext
      have hlt : ∀ r ∈ s.runs, r.now < now := by simpa using hlater
      refine ⟨?_, forall_mem_concat h.at? ⟨[], rfl, nofun, rfl⟩, news, hevents, forall_mem_concat hown ?_, fun e he => ?_⟩
      · exact List.pairwise_append.mpr ⟨h.increasing, List.pairwise_singleton _ _, fun r hr r' hr' => List.mem_singleton.mp hr' ▸ hlt r hr⟩
      · refine List.filter_eq_nil_iff.mpr fun e he hnow => ?_
        obtain ⟨r, hr, heq⟩ := hall e he
        exact (hlt r hr).ne (heq.symm.trans (of_decide_eq_true hnow))
      · obtain ⟨r, hr, heq⟩ := hall e he
        exact ⟨r, List.mem_append_left _ hr, heq⟩
    · cases hnext
  | turn i =>
    unfold Monitoring.next at hnext
    dsimp only at hnext
    split at hnext
    · cases hnext
    · rename_i r hi
      obtain ⟨⟨r', more⟩, hturn, rfl⟩ := Option.map_eq_some_iff.mp hnext
      have hr := List.mem_of_getElem? hi
      obtain ⟨hnow, happend, hmore⟩ := Run.turn_now hturn
      have hother {j : ℕ} {u : Run} (hj : s.runs[j]? = some u) (hne : j ≠ i) : u.now ≠ r.now := by
        obtain ⟨hlj, rfl⟩ := List.getElem?_eq_some_iff.mp hj
        obtain ⟨hli, rfl⟩ := List.getElem?_eq_some_iff.mp hi
        have hpairs := List.pairwise_iff_getElem.mp h.increasing
        rcases Nat.lt_or_gt_of_ne hne with hlt | hlt
        · exact (hpairs j i hlj hli hlt).ne
        · exact (hpairs i j hli hlj hlt).ne'
      refine ⟨?_, forall_mem_set h.at? ((h.at? r hr).turn henabled (h.sees hr) hturn), news ++ more, ?_, fun u hu => ?_, fun e he => ?_⟩
      · obtain ⟨hlt, rfl⟩ := List.getElem?_eq_some_iff.mp hi
        have hmap : (s.runs.set i r').map (·.now) = s.runs.map (·.now) := by
          rw [List.map_set, hnow, ← List.getElem_map Run.now (h := by simpa using hlt), List.set_getElem_self]
        exact List.pairwise_map.mp (hmap ▸ List.pairwise_map.mpr h.increasing)
      · exact (congrArg (· ++ more) hevents).trans (List.append_assoc ..)
      · obtain ⟨j, hj⟩ := List.getElem?_of_mem hu
        rw [List.filter_append]
        rcases getElem?_set_split hj with ⟨rfl, rfl⟩ | ⟨hne, hj⟩
        · rw [hnow, happend, hown r hr, List.filter_eq_self.mpr fun e he => decide_eq_true (hmore e he)]
        · rw [hown u (List.mem_of_getElem? hj), List.filter_eq_nil_iff.mpr fun e he heq => hother hj hne ?_, List.append_nil]
          exact (of_decide_eq_true heq).symm.trans (hmore e he)
      · rcases List.mem_append.mp he with he | he
        · obtain ⟨u, hu, heq⟩ := hall e he
          exact exists_mem_set hi ⟨u, hu, heq⟩ fun heq => heq.trans hnow.symm
        · exact ⟨r', List.mem_set (List.getElem?_eq_some_iff.mp hi).1 r', (hmore e he).trans hnow.symm⟩

/-- There is an event more for a scope and a user than at the beginning just where the threshold is breached and no event was there. -/
def Exact (thresholds : List Threshold) (invocations : List AiInvocation) (before : List CostAlertEvent) (s : Monitor) (now : ℤ) : Prop :=
  ∀ t ∈ enabled thresholds, ∀ user,
    let found (events : List CostAlertEvent) := events.countP fun e => e.key = (t.scope, user, t.windowStart now, now)
    (Breached invocations now t user ∧ found before = 0 → found s.events = 1) ∧
      (¬ (Breached invocations now t user ∧ found before = 0) → found s.events = found before)

theorem mem_alerts_iff {ts : List Threshold} (hs : (ts.map (·.scope)).Nodup) {t : Threshold} (ht : t ∈ ts) {now : ℤ} {user : Option ℕ} :
    (t.scope, user, t.windowStart now, now) ∈ (alerts invocations now ts).map (·.key) ↔ Breached invocations now t user := by
  simp only [alerts, List.mem_map, List.mem_flatMap]
  constructor
  · rintro ⟨_, ⟨t', ht', row, hrow, rfl⟩, hkey⟩
    obtain rfl : t' = t := List.inj_on_of_nodup_map hs ht' ht (congrArg Prod.fst hkey)
    obtain rfl : row.1 = user := congrArg (·.2.1) hkey
    exact (mem_due_iff.mp hrow).1
  · exact fun h => ⟨_, ⟨t, ht, (user, observed invocations now t user), mem_due_iff.mpr ⟨h, rfl⟩, rfl⟩, rfl⟩

theorem Sound.exact (hs : (thresholds.map (·.scope)).Nodup) (h : Sound thresholds invocations before s) (hr : r ∈ s.runs) (hdone : r.pc = .done) :
    Exact thresholds invocations before s r.now := by
  have henabled : ((enabled thresholds).map (·.scope)).Nodup := hs.sublist (List.filter_sublist.map _)
  obtain ⟨news, hevents, hown, -⟩ := h.events
  have hat := h.at? r hr
  unfold Run.At at hat
  rw [hdone] at hat
  intro t ht user found
  have hsplit : found s.events = found before + found (fresh before (alerts invocations r.now (enabled thresholds))) := by
    unfold found
    rw [hevents, List.countP_append, ← hat.2, ← hown r hr, List.countP_filter]
    congr 1
    refine List.countP_congr fun e _ => ?_
    simp only [decide_eq_true_eq, Bool.and_eq_true]
    exact ⟨fun hk => ⟨hk, congrArg (·.2.2.2) hk⟩, fun hk => hk.1⟩
  have hone : found (fresh before (alerts invocations r.now (enabled thresholds))) ≤ 1 := by
    have hle : found (fresh before (alerts invocations r.now (enabled thresholds))) ≤ found (alerts invocations r.now (enabled thresholds)) :=
      List.filter_sublist.countP_le
    refine hle.trans ?_
    have hcount := List.nodup_iff_count_le_one.mp (nodup_alerts invocations r.now henabled)
      (t.scope, user, t.windowStart r.now, r.now)
    rw [List.count, List.countP_map] at hcount
    exact (Nat.le_of_eq (List.countP_congr fun e _ => by simp)).trans hcount
  have hpos : 0 < found (fresh before (alerts invocations r.now (enabled thresholds))) ↔ Breached invocations r.now t user ∧ found before = 0 := by
    rw [← mem_alerts_iff henabled ht, List.countP_pos_iff, List.countP_eq_zero]
    simp only [fresh, List.mem_filter, List.mem_map, decide_eq_true_eq, not_exists, not_and]
    constructor
    · rintro ⟨e, ⟨he, hnot⟩, hkey⟩
      exact ⟨⟨e, he, hkey⟩, fun e' he' hk => hnot e' he' (hk.trans hkey.symm)⟩
    · rintro ⟨⟨e, he, hkey⟩, hnone⟩
      exact ⟨e, ⟨he, fun e' he' hk => hnone e' he' (hk.trans hkey)⟩, hkey⟩
  refine ⟨fun hdue => ?_, fun hnot => ?_⟩
  · have := hpos.mpr hdue
    have := hdue.2
    omega
  · have : ¬ 0 < found (fresh before (alerts invocations r.now (enabled thresholds))) := fun hp => hnot (hpos.mp hp)
    omega

/-- **A run of the alerts ends well, with an event for just the breaches that had none**, where each spend it looks at fits an `int`. -/
theorem cost_alerts_exact (hscopes : (thresholds.map (·.scope)).Nodup)
    (hrun : Reaches (fun s a s' => next thresholds invocations s a = some s') ⟨before, []⟩ s) (hr : r ∈ s.runs) (hended : r.pc = .done ∨ r.pc = .failed) :
    r.pc = .done ∧ Exact thresholds invocations before s r.now ↔ ∀ t ∈ enabled thresholds, Fits invocations r.now t := by
  have hsound : Sound thresholds invocations before s :=
    hrun.inv ⟨.nil, nofun, [], (List.append_nil _).symm, nofun, nofun⟩ fun _ _ _ h hnext => h.next hscopes hnext
  have hat := hsound.at? r hr
  unfold Run.At at hat
  constructor
  · rintro ⟨hdone, -⟩
    rw [hdone] at hat
    exact hat.1
  · intro hfits
    rcases hended with hdone | hfailed
    · exact ⟨hdone, hsound.exact hscopes hr hdone⟩
    · rw [hfailed] at hat
      exact absurd hfits hat

/-- Two users, and a third who has not spent enough. -/
theorem cost_alerts_exact_run :
    ∃ s, ∃ r ∈ s.runs, r.pc = .done ∧ Exact [⟨.GLOBAL, 60, 100, true, by decide, by decide⟩, ⟨.PER_USER, 60, 50, true, by decide, by decide⟩]
      [⟨some 1, 10, 60⟩, ⟨some 2, 20, 50⟩, ⟨some 3, 20, 40⟩] [] s r.now := by
  obtain ⟨s, hrun, r, hr, hdone, hfits⟩ := Reaches.exists_of_play
    (next [⟨.GLOBAL, 60, 100, true, by decide, by decide⟩, ⟨.PER_USER, 60, 50, true, by decide, by decide⟩]
      [⟨some 1, 10, 60⟩, ⟨some 2, 20, 50⟩, ⟨some 3, 20, 40⟩])
    (fun _ _ => true) ⟨[], []⟩ (.start 60000 :: List.replicate 11 (.turn 0))
    (fun s => ∃ r ∈ s.runs, r.pc = .done ∧ r.now = 60000) (by decide)
  refine ⟨s, r, hr, (cost_alerts_exact (by decide) hrun.of_guarded hr (.inl hdone)).mpr ?_⟩
  intro t ht
  rw [hfits, fits_iff]
  revert t
  decide

/-- One user's spend is more than an `int`: neither that breach nor the other user's has an event. -/
theorem runaway_spend_unreported :
    ∃ s, Reaches (fun s a s' => next [⟨.PER_USER, 60, 50, true, by decide, by decide⟩, ⟨.GLOBAL, 60, 100, true, by decide, by decide⟩]
        [⟨some 1, 10, 2147483647⟩, ⟨some 1, 10, 1⟩, ⟨some 2, 20, 60⟩] s a = some s') ⟨[], []⟩ s ∧
      (∃ r ∈ s.runs, r.pc = .failed) ∧ s.events = [] ∧
      Breached [⟨some 1, 10, 2147483647⟩, ⟨some 1, 10, 1⟩, ⟨some 2, 20, 60⟩] 60000 ⟨.PER_USER, 60, 50, true, by decide, by decide⟩ (some 2) := by
  obtain ⟨s, hrun, hfailed, hevents⟩ := Reaches.exists_of_play
    (next [⟨.PER_USER, 60, 50, true, by decide, by decide⟩, ⟨.GLOBAL, 60, 100, true, by decide, by decide⟩]
      [⟨some 1, 10, 2147483647⟩, ⟨some 1, 10, 1⟩, ⟨some 2, 20, 60⟩])
    (fun _ _ => true) ⟨[], []⟩ [.start 60000, .turn 0] (fun s => (∃ r ∈ s.runs, r.pc = .failed) ∧ s.events = []) (by decide)
  exact ⟨s, hrun.of_guarded, hfailed, hevents, .inr ⟨rfl, nofun⟩, by decide⟩

end System

end WebAudit.Monitoring
