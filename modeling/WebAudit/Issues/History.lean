import WebAudit.Issues.Board
import Mathlib.Data.List.Induction

/-!
# Issues turn green only on a passing check

Whatever happens on the board, an issue is resolved by an attempt that passed, each attempt is about an
assertion of its own, and that an issue was resolved is never forgotten (`told_reachable`). What an issue goes
through once its scan is over follows the table of transitions, as long as no `markRecurrences` writes rows
that it read before (`history_sound`): it writes them whatever has become of them since
(`reopened_while_asserted`).
-/

namespace WebAudit.Issues

open WebAudit.Lib WebAudit.Credits Board

/-! ### What an action writes -/

/-- What an action of `author` does to the issues and the attempts; `late` is whether a `markRecurrences` may
write rows of scans that are over, in any state. -/
inductive Touch (late : Prop) (scans : List ScanRow) (attempts : List VerificationAttempt) (issues : List Issue) :
    Author → List VerificationAttempt → List Issue → Prop where
  | added {author} (rows : List Issue) (hrows : ∀ issue ∈ rows, issue.state = .OPEN) :
    Touch late scans attempts issues author attempts (issues ++ rows)
  | asserted {id issue now} (hi : issues[id]? = some issue) (horigin : canAssertFixed issue.state = true) :
    Touch late scans attempts issues .request attempts
      (issues.set id { issue with state := .ASSERTED_FIXED, assertedFixedAt := some now })
  | recorded {issue now} (attempt : VerificationAttempt) (hi : issues[attempt.issueId]? = some issue)
    (horigin : issue.state = .ASSERTED_FIXED) :
    Touch late scans attempts issues (.attempt attempts.length) (attempts ++ [attempt])
      (issues.set attempt.issueId (issue.verified (outcomeToState attempt.outcome) now))
  | reopened {now} (ids : List ℕ)
    (hids : late ∨ ∀ id ∈ ids, ∀ issue, issues[id]? = some issue → (scans[issue.scanId]?).any (·.completed) = true →
      issue.state = .RESOLVED ∨ issue.state = .REOPENED) :
    Touch late scans attempts issues .recurrence attempts (reopen ids now issues)

section Touches

variable {late : Prop} {scans : List ScanRow} {attempts : List VerificationAttempt} {issues : List Issue} {author : Author}

theorem Touch.idle : Touch late scans attempts issues author attempts issues := by
  have h : Touch late scans attempts issues author attempts (issues ++ []) := .added [] fun _ h => (List.not_mem_nil h).elim
  rwa [List.append_nil] at h

theorem assertStep_touches (issueId : ℕ) (periodEnd : Option ℤ) (now : ℤ) (pc : AssertPc) (s : Store) :
    Touch late scans s.attempts s.issues .request (pc.step issueId periodEnd now s).2.attempts (pc.step issueId periodEnd now s).2.issues := by
  cases pc with
  | assert scanId debitId =>
    unfold AssertPc.step Store.assertFixed
    dsimp only
    cases hi : s.issues[issueId]? with
    | none => exact .idle
    | some issue =>
      dsimp only
      split
      · rename_i hfrom
        split at hfrom
        · rename_i hassertable
          cases hfrom
          exact .asserted hi hassertable
        · cases hfrom
      · exact .idle
  | read =>
    unfold AssertPc.step
    dsimp only
    split
    · exact .idle
    · split <;> exact .idle
  | debit scanId =>
    unfold AssertPc.step
    dsimp only
    split <;> exact .idle
  | undo debitId => exact .idle
  | enqueue scanId debitId => exact .idle
  | responded response => exact .idle
  | failed => exact .idle

theorem reverifyStep_touches (data : ReverifyJobData) (periodEnd : Option ℤ) (now : ℤ) (check : CheckRun) (pc : ReverifyPc) (s : Store) :
    Touch late scans s.attempts s.issues (.attempt s.attempts.length) (pc.step data periodEnd now check s).2.attempts
      (pc.step data periodEnd now check s).2.issues := by
  cases pc with
  | write f =>
    unfold ReverifyPc.step Store.record
    dsimp only
    cases hi : s.issues[(f.attempt data).issueId]? with
    | none => exact .idle
    | some issue =>
      dsimp only
      by_cases horigin : issue.state = .ASSERTED_FIXED
      · rw [if_pos horigin]
        dsimp only
        split <;> exact .recorded (f.attempt data) hi horigin
      · rw [if_neg horigin]
        exact .idle
  | read =>
    unfold ReverifyPc.step
    dsimp only
    split
    · exact .idle
    · split <;> exact .idle
  | check issue =>
    unfold ReverifyPc.step
    dsimp only
    split <;> exact .idle
  | find f =>
    unfold ReverifyPc.step
    dsimp only
    split
    · exact .idle
    · split <;> exact .idle
  | refund outcome =>
    unfold ReverifyPc.step
    dsimp only
    split
    · exact .idle
    · split <;> exact .idle
  | returned result => exact .idle
  | failed => exact .idle

/-- The actions of the desk. -/
theorem desk_touches {s : Board} {desk : Desk} {a : DeskAction} (h : s.desk.next a = some desk) :
    Touch late scans s.attempts s.issues (s.author (.desk a)) desk.store.attempts desk.store.issues := by
  cases a with
  | post issueId =>
    cases h
    exact .idle
  | advance k periodEnd now =>
    obtain ⟨r, -, h⟩ := Option.bind_eq_some_iff.mp h
    split at h
    · cases h
    · cases h
      exact assertStep_touches r.issueId periodEnd now r.pc s.desk.store
  | fail k =>
    obtain ⟨r, -, h⟩ := Option.bind_eq_some_iff.mp h
    split at h
    · cases h
    · cases h
      exact .idle
  | refundFails k =>
    obtain ⟨r, -, h⟩ := Option.bind_eq_some_iff.mp h
    split at h
    · cases h
      exact .idle
    · cases h
  | deliver j =>
    obtain ⟨job, -, rfl⟩ := Option.map_eq_some_iff.mp h
    exact .idle
  | work n periodEnd now check =>
    obtain ⟨r, -, h⟩ := Option.bind_eq_some_iff.mp h
    split at h
    · cases h
    · cases h
      unfold Desk.work
      dsimp only
      rw [close_issues, close_attempts]
      exact reverifyStep_touches r.data periodEnd now check r.pc s.desk.store
  | crash n =>
    obtain ⟨r, -, h⟩ := Option.bind_eq_some_iff.mp h
    split at h
    · cases h
    · cases h
      exact .idle
  | repayFails n =>
    obtain ⟨r, -, h⟩ := Option.bind_eq_some_iff.mp h
    split at h
    · obtain ⟨d, -, rfl⟩ := Option.map_eq_some_iff.mp h
      exact .idle
    · cases h
  | elsewhere ledger =>
    unfold Desk.next at h
    dsimp only at h
    split at h
    · cases h
      exact .idle
    · cases h

theorem insert_touches (scanId : ℕ) (s : Board) (findings : List (String × String)) :
    (findings.foldl (Board.insert scanId) s).attempts = s.attempts ∧
      ∃ rows : List Issue, (∀ issue ∈ rows, issue.state = .OPEN) ∧ (findings.foldl (Board.insert scanId) s).issues = s.issues ++ rows := by
  induction findings generalizing s with
  | nil => exact ⟨rfl, [], fun _ h => (List.not_mem_nil h).elim, (List.append_nil _).symm⟩
  | cons finding findings ih =>
    rw [List.foldl_cons]
    obtain ⟨hattempts, rows, hrows, hissues⟩ := ih (Board.insert scanId s finding)
    rw [hattempts, hissues]
    unfold Board.insert
    split
    · exact ⟨rfl, rows, hrows, rfl⟩
    · refine ⟨rfl, ⟨scanId, finding.2, .OPEN, none, none, none, false⟩ :: rows, fun issue hissue => ?_, ?_⟩
      · rcases List.mem_cons.mp hissue with rfl | hissue
        · rfl
        · exact hrows issue hissue
      · exact List.append_assoc _ [_] rows

theorem recur_touches {s : Board} {n : ℕ} {r : Recurrence} (now : ℤ) (hr : s.recurrences[n]? = some r) :
    Touch (s.inTime (.recur n now) = false) s.scans s.attempts s.issues .recurrence (s.recur now r).2.attempts (s.recur now r).2.issues := by
  obtain ⟨scanId, pc⟩ := r
  unfold Board.recur
  cases pc with
  | write recurring =>
    refine .reopened (recurring.map Prod.fst) ?_
    by_cases hlate : s.inTime (.recur n now) = false
    · exact .inl hlate
    · refine .inr fun id hid issue hi hover => ?_
      obtain ⟨row, hrow, rfl⟩ := List.mem_map.mp hid
      rw [Bool.not_eq_false, Board.inTime, hr, Option.map_some, List.all_eq_true] at hlate
      have hstate := hlate row hrow
      rw [hi, Option.all_some, hover] at hstate
      simpa using hstate
  | readScan =>
    dsimp only
    split <;> exact .idle
  | readPrior scan =>
    dsimp only
    split <;> exact .idle
  | readRecurring fingerprints =>
    dsimp only
    split <;> exact .idle
  | returned reopened fingerprints => exact .idle
  | failed => exact .idle

/-- **Every action touches the issues** in one of these ways. -/
theorem move_touches {s s' : Board} {a : BoardAction} (h : s.move a = some s') :
    Touch (s.inTime a = false) s.scans s.attempts s.issues (s.author a) s'.attempts s'.issues := by
  cases a with
  | openScan targetId createdAt =>
    cases h
    exact .idle
  | complete scanId =>
    obtain ⟨scan, -, rfl⟩ := Option.map_eq_some_iff.mp h
    exact .idle
  | persist scanId findings =>
    cases h
    obtain ⟨hattempts, rows, hrows, hissues⟩ := insert_touches scanId s findings
    rw [hattempts, hissues]
    exact .added rows hrows
  | desk a =>
    obtain ⟨desk, hdesk, rfl⟩ := Option.map_eq_some_iff.mp h
    exact desk_touches hdesk
  | record data f =>
    unfold Board.move at h
    dsimp only at h
    split at h <;> cases h <;> exact .idle
  | call n periodEnd now =>
    obtain ⟨c, -, h⟩ := Option.bind_eq_some_iff.mp h
    split at h
    · cases h
    · cases h
      exact reverifyStep_touches c.data periodEnd now .noEntryPoint c.pc s.desk.store
  | callFails n =>
    obtain ⟨c, -, h⟩ := Option.bind_eq_some_iff.mp h
    split at h
    · cases h
    · cases h
      exact .idle
  | markRecurrences scanId =>
    cases h
    exact .idle
  | recur n now =>
    obtain ⟨r, hr, h⟩ := Option.bind_eq_some_iff.mp h
    split at h
    · cases h
    · cases h
      exact recur_touches now hr
  | recurFails n =>
    obtain ⟨r, -, h⟩ := Option.bind_eq_some_iff.mp h
    split at h
    · cases h
    · cases h
      exact .idle

end Touches

/-! ### What it means for the issues -/

/-- What the author of a change has to do with it. -/
inductive Legit (attempts : List VerificationAttempt) (c : Change) : Prop where
  | request (hauthor : c.author = .request) (htarget : c.target = .ASSERTED_FIXED)
  | attempt {k a} (hauthor : c.author = .attempt k) (ha : attempts[k]? = some a) (hissue : a.issueId = c.issueId)
    (horigin : c.origin = .ASSERTED_FIXED) (htarget : c.target = outcomeToState a.outcome)
  | recurrence (hauthor : c.author = .recurrence) (htarget : c.target = .REOPENED)

section Issues

variable {late : Prop} {scans : List ScanRow} {attempts attempts' : List VerificationAttempt} {issues issues' : List Issue}
  {author : Author} {id : ℕ} {c : Change}

theorem verified_state (issue : Issue) (next : IssueState) (now : ℤ) : (issue.verified next now).state = next := by
  unfold Issue.verified
  dsimp only
  split <;> split <;> rfl

theorem verified_previouslyResolved (issue : Issue) (next : IssueState) (now : ℤ) :
    (issue.verified next now).previouslyResolved = (issue.previouslyResolved || next = .RESOLVED) := by
  unfold Issue.verified
  dsimp only
  split <;> split <;> simp_all

theorem getElem?_reopen (ids : List ℕ) (now : ℤ) (issues : List Issue) (id : ℕ) :
    (reopen ids now issues)[id]? = issues[id]?.map fun issue =>
      if ids.contains id then { issue with state := .REOPENED, reopenedAt := some now, previouslyResolved := true } else issue := by
  unfold reopen
  rw [List.getElem?_mapIdx]

/-- An issue stays, and remembers that it was verified. -/
theorem Touch.keeps (h : Touch late scans attempts issues author attempts' issues') {old : Issue} (hold : issues[id]? = some old) :
    ∃ new, issues'[id]? = some new ∧ (old.previouslyResolved = true → new.previouslyResolved = true) ∧
      (new.state = .RESOLVED → old.state ≠ .RESOLVED → new.previouslyResolved = true) := by
  have hlt := (List.getElem?_eq_some_iff.mp hold).1
  have hsame : ∃ new, some old = some new ∧ (old.previouslyResolved = true → new.previouslyResolved = true) ∧
      (new.state = .RESOLVED → old.state ≠ .RESOLVED → new.previouslyResolved = true) :=
    ⟨old, rfl, fun h => h, fun h h' => absurd h h'⟩
  cases h with
  | added rows hrows => rwa [List.getElem?_append_left hlt, hold]
  | @asserted id' issue now hi horigin =>
    by_cases hid : id' = id
    · subst hid
      rw [hold] at hi
      cases hi
      rw [List.getElem?_set_self hlt]
      exact ⟨_, rfl, fun h => h, nofun⟩
    · rwa [List.getElem?_set_ne hid, hold]
  | @recorded issue now attempt hi horigin =>
    by_cases hid : attempt.issueId = id
    · subst hid
      rw [hold] at hi
      cases hi
      rw [List.getElem?_set_self hlt]
      refine ⟨_, rfl, fun h => ?_, fun h _ => ?_⟩
      · rw [verified_previouslyResolved, h, Bool.true_or]
      · rw [verified_state] at h
        simp [verified_previouslyResolved, h]
    · rwa [List.getElem?_set_ne hid, hold]
  | @reopened now ids hids =>
    rw [getElem?_reopen, hold, Option.map_some]
    split
    · exact ⟨_, rfl, fun _ => rfl, fun _ _ => rfl⟩
    · exact hsame

/-- What is new is open. -/
theorem Touch.opens (h : Touch late scans attempts issues author attempts' issues') {new : Issue} (hold : issues[id]? = none)
    (hnew : issues'[id]? = some new) : new.state = .OPEN := by
  cases h with
  | added rows hrows =>
    rw [List.getElem?_append_right (List.getElem?_eq_none_iff.mp hold)] at hnew
    exact hrows new (List.mem_of_getElem? hnew)
  | asserted hi horigin =>
    rw [List.getElem?_eq_none (by rw [List.length_set]; exact List.getElem?_eq_none_iff.mp hold)] at hnew
    cases hnew
  | recorded attempt hi horigin =>
    rw [List.getElem?_eq_none (by rw [List.length_set]; exact List.getElem?_eq_none_iff.mp hold)] at hnew
    cases hnew
  | reopened ids hids =>
    rw [getElem?_reopen, hold] at hnew
    cases hnew

/-- **Every change has its author**, and those that are in time follow the table. -/
theorem Touch.legit (h : Touch late scans attempts issues author attempts' issues') (hc : c ∈ changes scans author issues issues') :
    Legit attempts' c ∧ (late ∨ (c.completed = true → c.target ∈ issueStateTransitions c.origin)) := by
  obtain ⟨old, new, hold, hnew, hne, hc⟩ := mem_changes.mp hc
  have hlt := (List.getElem?_eq_some_iff.mp hold).1
  generalize c.issueId = id at hold hnew hlt hc
  subst hc
  cases h with
  | added rows hrows =>
    rw [List.getElem?_append_left hlt, hold] at hnew
    cases hnew
    exact absurd rfl hne
  | @asserted id' issue now hi horigin =>
    by_cases hid : id' = id
    · subst hid
      rw [hold] at hi
      cases hi
      rw [List.getElem?_set_self hlt] at hnew
      cases hnew
      refine ⟨.request rfl rfl, .inr fun _ => ?_⟩
      dsimp only
      generalize old.state = state at horigin ⊢
      revert horigin
      cases state <;> decide
    · rw [List.getElem?_set_ne hid, hold] at hnew
      cases hnew
      exact absurd rfl hne
  | @recorded issue now attempt hi horigin =>
    by_cases hid : attempt.issueId = id
    · subst hid
      rw [hold] at hi
      cases hi
      rw [List.getElem?_set_self hlt] at hnew
      cases hnew
      refine ⟨.attempt rfl List.getElem?_concat_length rfl horigin (verified_state _ _ _), .inr fun _ => ?_⟩
      dsimp only
      rw [horigin, verified_state]
      cases attempt.outcome <;> decide
    · rw [List.getElem?_set_ne hid, hold] at hnew
      cases hnew
      exact absurd rfl hne
  | @reopened now ids hids =>
    rw [getElem?_reopen, hold, Option.map_some] at hnew
    split at hnew
    · rename_i hid
      cases hnew
      refine ⟨.recurrence rfl rfl, hids.imp_right fun hids hover => ?_⟩
      rcases hids id (List.contains_iff_mem.mp hid) old hold hover with hstate | hstate
      · dsimp only
        rw [hstate]
        decide
      · exact absurd hstate hne
    · cases hnew
      exact absurd rfl hne

/-- An attempt is recorded with one change, of its issue, and nobody else speaks for it. -/
theorem Touch.speaks (h : Touch late scans attempts issues author attempts' issues') :
    (attempts' = attempts ∧ ∀ c ∈ changes scans author issues issues', ∀ k, c.author ≠ .attempt k) ∨
      ∃ a c, attempts' = attempts ++ [a] ∧ changes scans author issues issues' = [c] ∧ c.author = .attempt attempts.length ∧
        c.issueId = a.issueId := by
  have hauthor : ∀ c ∈ changes scans author issues issues', c.author = author := by
    intro c hc
    obtain ⟨_, _, -, -, -, hc⟩ := mem_changes.mp hc
    rw [hc]
  cases h with
  | added rows hrows =>
    refine .inl ⟨rfl, fun c hc => ?_⟩
    rw [changes_append] at hc
    cases hc
  | asserted hi horigin =>
    refine .inl ⟨rfl, fun c hc k => ?_⟩
    rw [hauthor c hc]
    exact nofun
  | recorded attempt hi horigin =>
    refine .inr ⟨attempt, _, rfl, changes_set hi ?_, rfl, rfl⟩
    rw [verified_state, horigin]
    exact (outcomeToState_ne_asserted attempt.outcome).symm
  | reopened ids hids =>
    refine .inl ⟨rfl, fun c hc k => ?_⟩
    rw [hauthor c hc]
    exact nofun

end Issues

/-! ### Histories -/

/-- A state, and how it came about. -/
inductive Story : IssueState → List Change → Prop where
  | born : Story .OPEN []
  | changed {before c} (h : Story c.origin before) : Story c.target (before ++ [c])

/-- What is the case on every board: whatever happens, and in time or not. -/
structure Told (s : Board) : Prop where
  story : ∀ id issue, s.issues[id]? = some issue → Story issue.state (s.historyOf id)
  unborn : ∀ id, s.issues[id]? = none → s.historyOf id = []
  legit : ∀ c ∈ s.history, Legit s.attempts c
  spoken : ∀ k a, s.attempts[k]? = some a → (s.history.filter (·.author = .attempt k)).map (·.issueId) = [a.issueId]
  verified : ∀ c ∈ s.history, c.target = .RESOLVED → ∃ issue, s.issues[c.issueId]? = some issue ∧ issue.previouslyResolved = true

section Steps

variable {s s' : Board} {a : BoardAction} {id : ℕ} {c : Change}

/-- What an action does to the history. -/
theorem next_cases (h : s.next a = some s') :
    ∃ u : Board, Touch (s.inTime a = false) s.scans s.attempts s.issues (s.author a) u.attempts u.issues ∧
      s' = { u with history := s.history ++ changes s.scans (s.author a) s.issues u.issues } := by
  obtain ⟨u, hu, rfl⟩ := Option.map_eq_some_iff.mp h
  exact ⟨u, move_touches hu, rfl⟩

theorem story_step {scans : List ScanRow} {author : Author} {before : List Change} {old new : Issue} (h : Story old.state before) :
    Story new.state (before ++ (change scans author id (some old) (some new)).toList) := by
  rw [change_some]
  split
  · rename_i hsame
    rw [← hsame, Option.toList_none, List.append_nil]
    exact h
  · exact Story.changed (c := ⟨id, old.state, new.state, author, _⟩) h

theorem Legit.mono {attempts : List VerificationAttempt} (more : List VerificationAttempt) (h : Legit attempts c) :
    Legit (attempts ++ more) c := by
  cases h with
  | request hauthor htarget => exact .request hauthor htarget
  | attempt hauthor ha hissue horigin htarget =>
    refine .attempt hauthor ?_ hissue horigin htarget
    rw [List.getElem?_append_left (List.getElem?_eq_some_iff.mp ha).1, ha]
  | recurrence hauthor htarget => exact .recurrence hauthor htarget

/-- **One action.** -/
theorem Told.step (hs : Told s) (h : s.next a = some s') : Told s' := by
  obtain ⟨u, htouch, rfl⟩ := next_cases h
  have hhistoryOf (id : ℕ) : ({ u with history := s.history ++ changes s.scans (s.author a) s.issues u.issues } : Board).historyOf id =
      s.historyOf id ++ (change s.scans (s.author a) id s.issues[id]? u.issues[id]?).toList := by
    unfold Board.historyOf
    rw [List.filter_append, changes_filter]
  have hlegit : ∀ c ∈ s.history, Legit u.attempts c := by
    intro c hc
    rcases htouch.speaks with ⟨hattempts, -⟩ | ⟨a', c', hattempts, -, -, -⟩
    · rw [hattempts]
      exact hs.legit c hc
    · rw [hattempts]
      exact (hs.legit c hc).mono [a']
  refine ⟨fun id new hnew => ?_, fun id hnone => ?_, fun c hc => ?_, fun k a' hk => ?_, fun c hc htarget => ?_⟩
  · rw [hhistoryOf, show u.issues[id]? = some new from hnew]
    cases hold : s.issues[id]? with
    | none =>
      rw [hs.unborn id hold, htouch.opens hold hnew]
      exact .born
    | some old => exact story_step (hs.story id old hold)
  · rw [hhistoryOf, show u.issues[id]? = none from hnone]
    cases hold : s.issues[id]? with
    | none =>
      rw [hs.unborn id hold]
      rfl
    | some old =>
      obtain ⟨new, hnew, -⟩ := htouch.keeps hold
      rw [show u.issues[id]? = none from hnone] at hnew
      cases hnew
  · rcases List.mem_append.mp hc with hc | hc
    · exact hlegit c hc
    · exact (htouch.legit hc).1
  · rw [List.filter_append, List.map_append]
    rcases htouch.speaks with ⟨hattempts, hsilent⟩ | ⟨last, c', hattempts, hchanges, hauthor, hissue⟩
    · have hk' : s.attempts[k]? = some a' := hattempts ▸ hk
      rw [hs.spoken k a' hk', List.filter_eq_nil_iff.mpr fun c hc => by simpa using hsilent c hc k]
      rfl
    · have hk' : (s.attempts ++ [last])[k]? = some a' := hattempts ▸ hk
      rw [hchanges]
      by_cases hlt : k < s.attempts.length
      · rw [List.getElem?_append_left hlt] at hk'
        have hne : ¬ c'.author = .attempt k := by
          rw [hauthor]
          intro heq
          cases heq
          omega
        rw [hs.spoken k a' hk', List.filter_cons_of_neg (by simpa using hne)]
        rfl
      · obtain ⟨rfl, rfl⟩ : k = s.attempts.length ∧ a' = last := by
          have := (List.getElem?_eq_some_iff.mp hk').1
          rw [List.length_append, List.length_singleton] at this
          obtain rfl : k = s.attempts.length := by omega
          rw [List.getElem?_concat_length] at hk'
          exact ⟨rfl, (Option.some.inj hk').symm⟩
        -- nobody has spoken for this attempt before
        have hbefore : s.history.filter (·.author = .attempt s.attempts.length) = [] := by
          refine List.filter_eq_nil_iff.mpr fun c hc hauthor' => ?_
          rw [decide_eq_true_eq] at hauthor'
          cases hs.legit c hc with
          | request hreq _ => simp [hreq] at hauthor'
          | attempt hatt ha _ _ _ =>
            rw [hauthor'] at hatt
            cases hatt
            exact absurd (List.getElem?_eq_some_iff.mp ha).1 (lt_irrefl _)
          | recurrence hrec _ => simp [hrec] at hauthor'
        rw [hbefore, List.filter_cons_of_pos (by simpa using hauthor)]
        simp [hissue]
  · rcases List.mem_append.mp hc with hc | hc
    · obtain ⟨old, hold, hresolved⟩ := hs.verified c hc htarget
      obtain ⟨new, hnew, hkeeps, -⟩ := htouch.keeps hold
      exact ⟨new, hnew, hkeeps hresolved⟩
    · obtain ⟨old, new, hold, hnew, hne, hc⟩ := mem_changes.mp hc
      obtain ⟨new', hnew', -, hverifies⟩ := htouch.keeps hold
      rw [hnew] at hnew'
      cases hnew'
      have hresolved : new.state = .RESOLVED := by
        rw [hc] at htarget
        exact htarget
      exact ⟨new, hnew, hverifies hresolved fun hold => hne (hold.trans hresolved.symm)⟩

/-- **Every run.** -/
theorem told_reachable {ledger : Ledger} (h : Reaches Board.step (Board.opening ledger) s) : Told s := by
  refine h.inv (I := Told) ?_ fun _ _ _ hs h => hs.step h
  exact ⟨nofun, fun _ _ => rfl, nofun, nofun, nofun⟩

/-- **A step that is in time** follows the table. -/
theorem edges_step (hs : ∀ c ∈ s.history, c.completed = true → c.target ∈ issueStateTransitions c.origin) (h : s.next a = some s')
    (hin : s.inTime a = true) : ∀ c ∈ s'.history, c.completed = true → c.target ∈ issueStateTransitions c.origin := by
  obtain ⟨u, htouch, rfl⟩ := next_cases h
  intro c hc hover
  rcases List.mem_append.mp hc with hc | hc
  · exact hs c hc hover
  · rcases (htouch.legit hc).2 with hlate | hedge
    · rw [hin] at hlate
      cases hlate
    · exact hedge hover

end Steps

/-! ### Green -/

/-- An issue is green by an attempt that passed; what happens after its scan is over follows the table; each attempt
is recorded once, and right after an assertion; and that an issue was resolved is remembered. -/
structure SoundHistory (s : Board) : Prop where
  green : ∀ id issue, s.issues[id]? = some issue → issue.state = .RESOLVED →
    ∃ c, (s.historyOf id).getLast? = some c ∧ c.origin = .ASSERTED_FIXED ∧
      ∃ k a, c.author = .attempt k ∧ s.attempts[k]? = some a ∧ a.issueId = id ∧ a.outcome = .PASSED
  edges : ∀ c ∈ s.history, c.completed = true → c.target ∈ issueStateTransitions c.origin
  recorded : ∀ k a, s.attempts[k]? = some a → (s.history.filter (·.author = .attempt k)).map (·.issueId) = [a.issueId]
  asserted : ∀ id before c after k, s.historyOf id = before ++ c :: after → c.author = .attempt k →
    ∃ d, before.getLast? = some d ∧ d.author = .request ∧ d.target = .ASSERTED_FIXED
  verified : ∀ c ∈ s.history, c.target = .RESOLVED → ∃ issue, s.issues[c.issueId]? = some issue ∧ issue.previouslyResolved = true
  kept : ∀ a s', s.next a = some s' → ∀ (id : ℕ) (issue : Issue), s.issues[id]? = some issue → issue.previouslyResolved = true →
    ∃ issue' : Issue, s'.issues[id]? = some issue' ∧ issue'.previouslyResolved = true

section SoundHistory

variable {s : Board} {id : ℕ} {c : Change}

theorem Story.last {state : IssueState} {before : List Change} (h : Story state before) (hne : state ≠ .OPEN) :
    ∃ c, before.getLast? = some c ∧ c.target = state := by
  cases h with
  | born => exact absurd rfl hne
  | changed h => exact ⟨_, List.getLast?_concat, rfl⟩

/-- The story up to a change. -/
theorem Story.upto {state : IssueState} {before after : List Change} (h : Story state (before ++ c :: after)) : Story c.origin before := by
  induction after using List.reverseRecOn generalizing state with
  | nil =>
    generalize hall : before ++ [c] = all at h
    cases h with
    | born => simp at hall
    | changed h =>
      obtain ⟨rfl, hc⟩ := List.append_inj' hall rfl
      cases hc
      exact h
  | append_singleton after last ih =>
    generalize hall : before ++ c :: (after ++ [last]) = all at h
    cases h with
    | born => simp at hall
    | changed h =>
      rw [← List.cons_append, ← List.append_assoc] at hall
      obtain ⟨rfl, -⟩ := List.append_inj' hall rfl
      exact ih h

theorem Told.author_of_asserted (hs : Told s) (hc : c ∈ s.history) (htarget : c.target = .ASSERTED_FIXED) : c.author = .request := by
  cases hs.legit c hc with
  | request hauthor _ => exact hauthor
  | @attempt k a _ _ _ _ houtcome =>
    rw [htarget] at houtcome
    exact absurd houtcome.symm (outcomeToState_ne_asserted a.outcome)
  | recurrence _ hreopened =>
    rw [htarget] at hreopened
    cases hreopened

theorem Told.green (hs : Told s) {issue : Issue} (hi : s.issues[id]? = some issue) (hstate : issue.state = .RESOLVED) :
    ∃ c, (s.historyOf id).getLast? = some c ∧ c.origin = .ASSERTED_FIXED ∧
      ∃ k a, c.author = .attempt k ∧ s.attempts[k]? = some a ∧ a.issueId = id ∧ a.outcome = .PASSED := by
  obtain ⟨c, hlast, htarget⟩ := (hs.story id issue hi).last (by rw [hstate]; decide)
  have hmem := List.mem_of_getLast? hlast
  obtain ⟨hc, hid⟩ := List.mem_filter.mp hmem
  rw [decide_eq_true_eq] at hid
  rw [hstate] at htarget
  refine ⟨c, hlast, ?_⟩
  cases hs.legit c hc with
  | request _ hasserted =>
    rw [htarget] at hasserted
    cases hasserted
  | @attempt k a hauthor ha hissue horigin houtcome =>
    refine ⟨horigin, k, a, hauthor, ha, hissue.trans hid, ?_⟩
    rw [htarget] at houtcome
    revert houtcome
    cases a.outcome <;> decide
  | recurrence _ hreopened =>
    rw [htarget] at hreopened
    cases hreopened

/-- Right before an attempt comes the assertion that it is about. -/
theorem Told.asserted (hs : Told s) {before after : List Change} {k : ℕ} (hhistory : s.historyOf id = before ++ c :: after)
    (hauthor : c.author = .attempt k) : ∃ d, before.getLast? = some d ∧ d.author = .request ∧ d.target = .ASSERTED_FIXED := by
  have hmem : ∀ d ∈ before ++ c :: after, d ∈ s.history := by
    intro d hd
    rw [← hhistory] at hd
    exact (List.mem_filter.mp hd).1
  have horigin : c.origin = .ASSERTED_FIXED := by
    cases hs.legit c (hmem c (by simp)) with
    | request hreq _ => simp [hreq] at hauthor
    | attempt _ _ _ horigin _ => exact horigin
    | recurrence hrec _ => simp [hrec] at hauthor
  cases hi : s.issues[id]? with
  | none =>
    rw [hs.unborn id hi] at hhistory
    simp at hhistory
  | some issue =>
    have hstory := hs.story id issue hi
    rw [hhistory] at hstory
    obtain ⟨d, hlast, htarget⟩ := hstory.upto.last (by rw [horigin]; decide)
    rw [horigin] at htarget
    exact ⟨d, hlast, hs.author_of_asserted (hmem d (List.mem_append_left _ (List.mem_of_getLast? hlast))) htarget, htarget⟩

/-- **Issues turn green only on a passing check**, and as long as every `markRecurrences` writes in time, what happens
after a scan is over follows the table. -/
theorem history_sound {ledger : Ledger}
    (h : Reaches (Guarded Board.step fun s a _ => s.inTime a = true) (Board.opening ledger) s) : SoundHistory s := by
  have htold := told_reachable h.of_guarded
  refine ⟨fun _ _ => htold.green, ?_, htold.spoken, fun _ _ _ _ _ => htold.asserted, htold.verified, ?_⟩
  · refine h.inv (I := fun s => ∀ c ∈ s.history, c.completed = true → c.target ∈ issueStateTransitions c.origin) nofun ?_
    exact fun _ _ _ hs ⟨hstep, hin⟩ => edges_step hs hstep hin
  · intro a s' hnext id issue hi hresolved
    obtain ⟨u, htouch, rfl⟩ := next_cases hnext
    obtain ⟨new, hnew, hkeeps, -⟩ := htouch.keeps hi
    exact ⟨new, hnew, hkeeps hresolved⟩

end SoundHistory

/-! ### Two runs -/

/-- Two re-checks' worth of credits. -/
def sixCredits : Ledger :=
  { lots := [⟨.PURCHASED, .PURCHASE, 6, 6, none, 0⟩]
    transactions := [⟨.GRANT, 6, "grant:purchase", none, none, none, none⟩]
    allocations := [] }

/-- An issue is found, and is verified as fixed when its scan is over; the next scan finds it again. -/
def verifiedOnce : List BoardAction :=
  [.openScan 0 0, .persist 0 [("csp", "headers.csp-missing")], .complete 0, .desk (.post 0), .desk (.advance 0 none 1),
    .desk (.advance 0 none 2), .desk (.advance 0 none 3), .desk (.advance 0 none 4), .desk (.deliver 0),
    .desk (.work 0 none 5 (.resolved .passed 20)), .desk (.work 0 none 6 (.resolved .passed 20)),
    .desk (.work 0 none 7 (.resolved .passed 20)), .desk (.work 0 none 8 (.resolved .passed 20)),
    .openScan 0 9, .persist 1 [("csp", "headers.csp-missing")], .persist 1 [("csp", "headers.csp-missing")]]

/-- It is reopened before the scan is over. -/
theorem history_sound_reopened : ∃ s, Reaches (Guarded Board.step fun s a _ => s.inTime a = true) (Board.opening sixCredits) s ∧
    (s.issues.map (·.state) = [.RESOLVED, .REOPENED] ∧ s.history.map (·.target) = [.ASSERTED_FIXED, .RESOLVED, .REOPENED]) ∧ SoundHistory s := by
  obtain ⟨s, hs, hp⟩ := Reaches.exists_of_play Board.next Board.inTime (Board.opening sixCredits)
    (verifiedOnce ++ ([.markRecurrences 1, .recur 0 10, .recur 0 11, .recur 0 12, .recur 0 13, .complete 1] : List BoardAction))
    (fun s => s.issues.map (·.state) = [.RESOLVED, .REOPENED] ∧
      s.history.map (·.target) = [.ASSERTED_FIXED, .RESOLVED, .REOPENED])
    (by decide)
  exact ⟨s, hs, hp, history_sound hs⟩

/-- Two runs of the last phase mark the recurrences; the scan is over, and the issue is asserted, when the first of them
writes what it read before. -/
theorem reopened_while_asserted : ¬ ∀ s, Reaches Board.step (Board.opening sixCredits) s → SoundHistory s := by
  intro hall
  obtain ⟨s, hs, hp⟩ := Reaches.exists_of_play Board.next (fun _ _ => true) (Board.opening sixCredits)
    (verifiedOnce ++ ([.markRecurrences 1, .recur 0 10, .recur 0 11, .recur 0 12, .markRecurrences 1, .recur 1 13, .recur 1 14,
      .recur 1 15, .recur 1 16, .complete 1, .desk (.post 1), .desk (.advance 1 none 17), .desk (.advance 1 none 18),
      .desk (.advance 1 none 19), .recur 0 20] : List BoardAction))
    (fun s => ⟨1, .ASSERTED_FIXED, .REOPENED, .recurrence, true⟩ ∈ s.history)
    (by decide)
  exact absurd ((hall s hs.of_guarded).edges _ hp rfl) (by decide)

end WebAudit.Issues
