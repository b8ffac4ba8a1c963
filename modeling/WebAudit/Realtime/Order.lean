import WebAudit.Realtime.Server

/-!
# Memberships in the order of messages

What a socket's messages come to when they are handled one after another, as they have arrived (`inOrder`), each with
the answers that its reads have had. A subscribe that waits is applied when its answers are there, behind messages that
have arrived after it. The socket's memberships are those in order while no such message is an unsubscribe of the same
room, and, if there is one at all, the rooms that the socket has been authorised for are within the limit (`Orderly`).
-/

namespace WebAudit.Realtime

open WebAudit.Lib

inductive Change where
  | leave (room : String)
  | join (room : String)
  deriving DecidableEq

/-- One after another, under the limit. -/
def Change.run (maxRooms : ℕ) (rooms : Finset String) : Change → Finset String
  | .leave room => rooms.erase room
  | .join room => if room ∉ rooms ∧ maxRooms ≤ rooms.card then rooms else insert room rooms

/-- Without it. -/
def Change.free (rooms : Finset String) : Change → Finset String
  | .leave room => rooms.erase room
  | .join room => insert room rooms

/-- What an answered message asks of the memberships; a subscribe that the limit has refused was authorised. -/
def Received.change (received : Received) : Option Change :=
  match received.pc with
  | .done (some (.unsubscribed scanId)) => some (.leave (scanRoom scanId))
  | .done (some (.subscribed scanId)) => some (.join (scanRoom scanId))
  | .done (some (.tooManySubscriptions scanId)) => some (.join (scanRoom scanId))
  | _ => none

/-- The changes that a socket's messages ask for, in the order in which the messages have come. -/
def changesOf (socket : ℕ) (messages : List Received) : List Change :=
  messages.filterMap fun received => if received.socket = socket then received.change else none

def Server.inOrder (options : RealtimeServerOptions) (s : Server) (socket : ℕ) : Finset String :=
  (changesOf socket s.received).foldl (Change.run options.maxRoomsPerConnection) ∅

/-- The rooms joined. -/
def joins (changes : List Change) : Finset String :=
  (changes.filterMap fun change => match change with
    | .join room => some room
    | .leave _ => none).toFinset

/-- A subscribe that is granted has not been overtaken by what would matter. -/
def Orderly (options : RealtimeServerOptions) (s : Server) : Action → Prop
  | .findFirst m .owned => ∀ received scanId userId, s.received[m]? = some received → received.pc = .owning scanId userId →
      .leave (scanRoom scanId) ∉ changesOf received.socket (s.received.drop (m + 1)) ∧
        (changesOf received.socket (s.received.drop (m + 1)) = [] ∨
          (insert (scanRoom scanId) (joins (changesOf received.socket s.received))).card ≤ options.maxRoomsPerConnection)
  | _ => True

/-! ### Changes -/

variable {options : RealtimeServerOptions} {s s' : Server} {a : Action} {socket i m maxRooms : ℕ} {room : String}
  {rooms S : Finset String} {changes pre post : List Change} {received : Received} {c : Connection}

theorem mem_joins : room ∈ joins changes ↔ .join room ∈ changes := by
  unfold joins
  simp only [List.mem_toFinset, List.mem_filterMap]
  constructor
  · rintro ⟨change, hmem, heq⟩
    cases change with
    | leave => cases heq
    | join =>
      obtain rfl := Option.some.inj heq
      exact hmem
  · exact fun h => ⟨_, h, rfl⟩

/-- The limit refuses nothing while the rooms joined are within it. -/
theorem foldl_run (hS : S.card ≤ maxRooms) (hjoins : ∀ room, .join room ∈ changes → room ∈ S) (hrooms : rooms ⊆ S) :
    changes.foldl (Change.run maxRooms) rooms = changes.foldl Change.free rooms ∧ changes.foldl Change.free rooms ⊆ S := by
  induction changes generalizing rooms with
  | nil => exact ⟨rfl, hrooms⟩
  | cons change changes ih =>
    have hrest : ∀ room, .join room ∈ changes → room ∈ S := fun room h => hjoins room (List.mem_cons_of_mem _ h)
    rw [List.foldl_cons, List.foldl_cons]
    cases change with
    | leave room => exact ih hrest ((Finset.erase_subset _ _).trans hrooms)
    | join room =>
      have hroom : room ∈ S := hjoins room (by simp)
      have hrun : Change.run maxRooms rooms (.join room) = insert room rooms := by
        refine if_neg ?_
        rintro ⟨hnot, hfull⟩
        have hlt := Finset.card_lt_card (Finset.ssubset_iff_of_subset hrooms |>.mpr ⟨room, hroom, hnot⟩)
        omega
      rw [hrun]
      exact ih hrest (Finset.insert_subset hroom hrooms)

/-- Without a limit, a join comes to the same after what follows it, unless the room is left there. -/
theorem foldl_free_join (h : .leave room ∉ post) :
    post.foldl Change.free (insert room rooms) = insert room (post.foldl Change.free rooms) := by
  induction post generalizing rooms with
  | nil => rfl
  | cons change post ih =>
    have hrest : .leave room ∉ post := fun hmem => h (List.mem_cons_of_mem _ hmem)
    rw [List.foldl_cons, List.foldl_cons]
    cases change with
    | leave other =>
      have hne : other ≠ room := by
        rintro rfl
        exact h (by simp)
      show post.foldl Change.free ((insert room rooms).erase other) = _
      rw [Finset.erase_insert_of_ne (Ne.symm hne), ih hrest]
      rfl
    | join other =>
      show post.foldl Change.free (insert other (insert room rooms)) = _
      rw [Finset.insert_comm, ih hrest]
      rfl

/-- **A join applied late** comes to what it would have come to in its place. -/
theorem foldl_run_join (h : .leave room ∉ post) (hlimit : post = [] ∨ (insert room (joins (pre ++ post))).card ≤ maxRooms) :
    (pre ++ .join room :: post).foldl (Change.run maxRooms) ∅ =
      Change.run maxRooms ((pre ++ post).foldl (Change.run maxRooms) ∅) (.join room) := by
  rcases hlimit with rfl | hcard
  · simp
  · set S := insert room (joins (pre ++ post))
    have hmem : ∀ other, .join other ∈ pre ++ post → other ∈ S := fun other hother =>
      Finset.mem_insert_of_mem (mem_joins.mpr hother)
    have hroom : room ∈ S := Finset.mem_insert_self _ _
    have hall : ∀ other, .join other ∈ pre ++ .join room :: post → other ∈ S := by
      intro other hother
      rcases List.mem_append.mp hother with hpre | hpost
      · exact hmem other (List.mem_append_left _ hpre)
      · rcases List.mem_cons.mp hpost with heq | hpost
        · obtain rfl := Change.join.inj heq
          exact hroom
        · exact hmem other (List.mem_append_right _ hpost)
    obtain ⟨hold, hsub⟩ := foldl_run hcard hmem (Finset.empty_subset S)
    have hone : ∀ other, .join other ∈ [Change.join room] → other ∈ S := fun other hother => by
      obtain rfl := Change.join.inj (List.mem_singleton.mp hother)
      exact hroom
    have hlast := (foldl_run hcard hone hsub).1
    rw [(foldl_run hcard hall (Finset.empty_subset S)).1, hold]
    rw [List.foldl_cons, List.foldl_nil] at hlast
    rw [hlast, List.foldl_append, List.foldl_cons]
    show post.foldl Change.free (insert room _) = insert room _
    rw [foldl_free_join h, ← List.foldl_append]

/-! ### The messages of a socket -/

theorem changesOf_append (socket : ℕ) (messages messages' : List Received) :
    changesOf socket (messages ++ messages') = changesOf socket messages ++ changesOf socket messages' := List.filterMap_append

/-- The messages around one of them. -/
theorem changesOf_split {messages : List Received} (socket : ℕ) (hm : messages[m]? = some received) :
    changesOf socket messages =
      changesOf socket (messages.take m) ++ changesOf socket [received] ++ changesOf socket (messages.drop (m + 1)) := by
  obtain ⟨hlt, heq⟩ := List.getElem?_eq_some_iff.mp hm
  rw [← changesOf_append, ← changesOf_append, List.append_assoc, ← heq, List.singleton_append, List.getElem_cons_drop,
    List.take_append_drop]

theorem changesOf_set {messages : List Received} (socket : ℕ) (hm : messages[m]? = some received) (received' : Received) :
    changesOf socket (messages.set m received') =
      changesOf socket (messages.take m) ++ changesOf socket [received'] ++ changesOf socket (messages.drop (m + 1)) := by
  have hlt := (List.getElem?_eq_some_iff.mp hm).1
  have hset : (messages.set m received')[m]? = some received' := List.getElem?_set_self hlt
  rw [changesOf_split socket hset, List.take_set_of_le (Nat.le_refl m), List.drop_set_of_lt (Nat.lt_succ_self m)]

theorem changesOf_singleton_none (socket : ℕ) (h : received.change = none) : changesOf socket [received] = [] := by
  simp [changesOf, h]

theorem changesOf_singleton_ne (h : received.socket ≠ socket) : changesOf socket [received] = [] := by
  simp [changesOf, h]

theorem changesOf_singleton_self {change : Change} (h : received.change = some change) :
    changesOf received.socket [received] = [change] := by
  simp [changesOf, h]

/-- What is kept: a live connection's rooms are those of its answered messages in order. -/
structure Ordered (options : RealtimeServerOptions) (s : Server) : Prop where
  rooms : ∀ socket c, s.connection socket = some c → c.rooms = s.inOrder options socket
  known : ∀ received ∈ s.received, received.socket < s.connections.length

theorem ordered_start : Ordered options start := by
  refine ⟨?_, ?_⟩ <;> simp [start, Server.connection]

/-- A message that asks for nothing, at the end. -/
theorem Ordered.record_none (h : Ordered options s) {message : ClientMessage} {pc : Pc} (hlt : socket < s.connections.length)
    (hnone : Received.change ⟨socket, message, pc⟩ = none) : Ordered options (s.record socket message pc) where
  rooms i c hc := by
    unfold Server.inOrder Server.record
    rw [changesOf_append, changesOf_singleton_none i hnone, List.append_nil]
    exact h.rooms i c hc
  known received hr := by
    rcases List.mem_append.mp hr with hr | hr
    · exact h.known received hr
    · obtain rfl := List.mem_singleton.mp hr
      exact hlt

/-- A handler that goes on without asking for a change. -/
theorem Ordered.setPc_none (h : Ordered options s) {pc : Pc} (hm : s.received[m]? = some received)
    (hnone : received.change = none) (hnone' : Received.change { received with pc } = none) :
    Ordered options (s.setPc m received pc) where
  rooms i c hc := by
    unfold Server.inOrder Server.setPc
    rw [changesOf_set i hm, changesOf_singleton_none i hnone', ← changesOf_singleton_none i hnone, ← changesOf_split i hm]
    exact h.rooms i c hc
  known x hx := by
    rcases List.mem_or_eq_of_mem_set hx with hx | rfl
    · exact h.known x hx
    · exact h.known received (List.mem_of_getElem? hm)

/-- The socket leaves a room, and its message is recorded at the end. -/
theorem Ordered.leave (h : Ordered options s) {message : ClientMessage} {scanId : String} (hlt : socket < s.connections.length) :
    Ordered options ((s.leave socket (scanRoom scanId)).record socket message (.done (some (.unsubscribed scanId)))) := by
  set received : Received := ⟨socket, message, .done (some (.unsubscribed scanId))⟩
  have hchange : received.change = some (.leave (scanRoom scanId)) := rfl
  have hlist : (s.leave socket (scanRoom scanId)).received = s.received := by
    unfold Server.leave
    split <;> rfl
  have hlen : (s.leave socket (scanRoom scanId)).connections.length = s.connections.length := by
    unfold Server.leave
    split
    · rfl
    · exact List.length_set ..
  have hinOrder : ∀ i, ((s.leave socket (scanRoom scanId)).record socket message received.pc).inOrder options i =
      if i = socket then (s.inOrder options i).erase (scanRoom scanId) else s.inOrder options i := by
    intro i
    unfold Server.inOrder Server.record
    rw [hlist, changesOf_append]
    split
    · rename_i hi
      subst hi
      have hone : changesOf i [received] = [.leave (scanRoom scanId)] := changesOf_singleton_self hchange
      rw [hone, List.foldl_append]
      rfl
    · rename_i hi
      have hone : changesOf i [received] = [] := changesOf_singleton_ne (Ne.symm hi)
      rw [hone, List.append_nil]
  refine ⟨fun i d hd => ?_, fun x hx => ?_⟩
  · rw [hinOrder]
    have hd' : (s.leave socket (scanRoom scanId)).connection i = some d := hd
    unfold Server.leave at hd'
    split at hd'
    · rename_i hc
      have hold : s.connection i = some d := hd'
      rw [if_neg (by rintro rfl; exact absurd (hc.symm.trans hold) (by simp))]
      exact h.rooms i d hold
    · rename_i c hc
      split
      · rename_i hi
        subst hi
        have hself := Server.connection_set_self (s := s.leaveRooms i {scanRoom scanId})
          (o := some { c with rooms := c.rooms.erase (scanRoom scanId) }) hlt
        obtain rfl := Option.some.inj (hself.symm.trans hd')
        rw [← h.rooms i c hc]
      · rename_i hi
        rw [Server.connection_set_ne hi] at hd'
        exact h.rooms i d hd'
  · show x.socket < (s.leave socket (scanRoom scanId)).connections.length
    rw [hlen]
    have hx' : x ∈ (s.leave socket (scanRoom scanId)).received ++ [received] := hx
    rw [hlist] at hx'
    rcases List.mem_append.mp hx' with hx' | hx'
    · exact h.known x hx'
    · obtain rfl := List.mem_singleton.mp hx'
      exact hlt

theorem Ordered.cleanup (h : Ordered options s) (socket : ℕ) : Ordered options (s.cleanup socket) := by
  unfold Server.cleanup
  rcases hc : s.connection socket with _ | c
  · exact h
  have hlt := Server.lt_of_connection hc
  refine ⟨fun i d hd => ?_, fun x hx => ?_⟩
  · have hd' : ((s.leaveRooms socket c.rooms).setConnection socket none).connection i = some d := hd
    by_cases hi : i = socket
    · subst hi
      exact absurd ((Server.connection_set_self hlt).symm.trans hd') (by simp)
    · exact h.rooms i d ((Server.connection_set_ne hi).symm.trans hd')
  · show x.socket < (s.connections.set socket none).length
    rw [List.length_set]
    exact h.known x hx

/-- A new socket has sent nothing. -/
theorem Ordered.connect (h : Ordered options s) (sourceKey : String) : Ordered options (s.connect sourceKey) := by
  refine ⟨fun i d hd => ?_, fun x hx => ?_⟩
  · rw [Server.connection_eq] at hd
    have hd' : (s.connections ++ [some ⟨∅, sourceKey⟩])[i]? = some (some d) := hd
    by_cases hi : i < s.connections.length
    · rw [List.getElem?_append_left hi] at hd'
      exact h.rooms i d (Server.connection_eq.mpr hd')
    · rw [List.getElem?_append_right (by omega)] at hd'
      have hmem := List.mem_of_getElem? hd'
      simp only [List.mem_singleton, Option.some.injEq] at hmem
      subst hmem
      have hnone : changesOf i s.received = [] := by
        refine List.filterMap_eq_nil_iff.mpr fun x hx => if_neg ?_
        rintro rfl
        exact hi (h.known x hx)
      show ∅ = s.inOrder options i
      unfold Server.inOrder
      rw [hnone]
      rfl
  · show x.socket < (s.connections ++ [some (Connection.mk ∅ sourceKey)]).length
    have := h.known x hx
    rw [List.length_append]
    omega

/-- What a granted subscribe makes of its connection's rooms. -/
theorem Server.connection_apply (options : RealtimeServerOptions) (m : ℕ) (scanId : String) (hc : s.connection received.socket = some c) :
    ∃ reply, (reply = .subscribed scanId ∨ reply = .tooManySubscriptions scanId) ∧
      (s.apply options m received scanId).received = s.received.set m { received with pc := .done (some reply) } ∧
      (s.apply options m received scanId).connections.length = s.connections.length ∧
      (∃ d, (s.apply options m received scanId).connection received.socket = some d ∧
        d.rooms = Change.run options.maxRoomsPerConnection c.rooms (.join (scanRoom scanId))) ∧
      ∀ i, i ≠ received.socket → (s.apply options m received scanId).connection i = s.connection i := by
  have hlt := lt_of_connection hc
  unfold Server.apply
  rw [hc]
  dsimp only
  split
  · rename_i hfull
    exact ⟨_, .inr rfl, rfl, rfl, ⟨c, hc, (if_pos hfull).symm⟩, fun _ _ => rfl⟩
  · rename_i hnot
    refine ⟨_, .inl rfl, rfl, List.length_set .., ⟨_, connection_set_self hlt, (if_neg hnot).symm⟩, fun i hi => ?_⟩
    exact connection_set_ne hi

/-- **A granted subscribe**, applied now, comes to what it would have come to when it arrived. -/
theorem Ordered.apply (h : Ordered options s) {scanId userId : String} (hm : s.received[m]? = some received)
    (hpc : received.pc = .owning scanId userId) (hord : Orderly options s (.findFirst m .owned)) :
    Ordered options (s.apply options m received scanId) := by
  have hnone : received.change = none := by simp [Received.change, hpc]
  rcases hc : s.connection received.socket with _ | c
  · unfold Server.apply
    rw [hc]
    exact h.setPc_none hm hnone rfl
  · obtain ⟨reply, hreply, hlist, hlen, ⟨d, hd, hrooms⟩, hother⟩ :=
      Server.connection_apply options m scanId hc
    obtain ⟨hleave, hlimit⟩ := hord received scanId userId hm hpc
    have hchange : Received.change { received with pc := .done (some reply) } = some (.join (scanRoom scanId)) := by
      rcases hreply with rfl | rfl <;> rfl
    refine ⟨fun i e he => ?_, fun x hx => ?_⟩
    · by_cases hi : i = received.socket
      · subst hi
        obtain rfl := Option.some.inj (hd.symm.trans he)
        have hsplit := changesOf_split received.socket hm
        rw [changesOf_singleton_none received.socket hnone, List.append_nil] at hsplit
        have hone : changesOf received.socket [{ received with pc := .done (some reply) }] = [.join (scanRoom scanId)] :=
          changesOf_singleton_self hchange
        rw [hrooms, h.rooms received.socket c hc]
        unfold Server.inOrder
        rw [hlist, changesOf_set received.socket hm, hone, List.append_assoc, List.singleton_append, hsplit]
        rw [hsplit] at hlimit
        exact (foldl_run_join hleave hlimit).symm
      · rw [hother i hi] at he
        rw [h.rooms i e he]
        unfold Server.inOrder
        have hone : changesOf i [{ received with pc := .done (some reply) }] = [] := changesOf_singleton_ne (Ne.symm hi)
        have hnow : changesOf i [received] = [] := changesOf_singleton_ne (Ne.symm hi)
        rw [hlist, changesOf_set i hm, hone, ← hnow, ← changesOf_split i hm]
    · rw [hlist] at hx
      rw [hlen]
      rcases List.mem_or_eq_of_mem_set hx with hx | rfl
      · exact h.known x hx
      · exact h.known received (List.mem_of_getElem? hm)

theorem Ordered.receive (h : Ordered options s) (message : ClientMessage) (hlt : socket < s.connections.length) :
    Ordered options (s.receive socket message) := by
  unfold Server.receive
  cases message with
  | malformed => exact h.record_none hlt rfl
  | ping => exact h.record_none hlt rfl
  | unsubscribe scanId =>
    dsimp only
    split
    · exact h.record_none hlt rfl
    · exact h.leave hlt
  | subscribe scanId token =>
    dsimp only
    split
    · exact h.record_none hlt rfl
    · split <;> exact h.record_none hlt rfl

theorem Ordered.step (h : Ordered options s) (hs : step options s a s') (hord : Orderly options s a) : Ordered options s' := by
  unfold Realtime.step next at hs
  cases a with
  | connect sourceKey =>
    dsimp only at hs
    split at hs
    · obtain rfl := Option.some.inj hs
      exact h.connect sourceKey
    · cases hs
  | receive socket message =>
    dsimp only at hs
    split at hs
    · rename_i hlt
      obtain rfl := Option.some.inj hs
      exact h.receive message hlt
    · cases hs
  | verify m sub =>
    dsimp only at hs
    split at hs
    · cases hs
    · rename_i received hm
      split at hs
      · rename_i scanId token hpc
        obtain rfl := Option.some.inj hs
        refine h.setPc_none hm (by simp [Received.change, hpc]) ?_
        cases sub <;> rfl
      · cases hs
  | findFirst m answer =>
    dsimp only at hs
    split at hs
    · cases hs
    · rename_i received hm
      split at hs
      · rename_i scanId userId hpc
        obtain rfl := Option.some.inj hs
        have hnone : received.change = none := by simp [Received.change, hpc]
        cases answer with
        | owned => exact h.apply hm hpc hord
        | null => exact h.setPc_none hm hnone rfl
        | threw => exact h.setPc_none hm hnone rfl
      · cases hs
  | cleanup socket =>
    dsimp only at hs
    split at hs
    · obtain rfl := Option.some.inj hs
      exact h.cleanup socket
    · cases hs

/-! ### The rooms -/

/-- A subscribe, and an unsubscribe of the same room while the scan's owner is read. -/
def overtaken : List Action :=
  [.connect "10.0.0.1", .receive 0 (.subscribe (some "scan") (some "token")), .verify 0 (some "user"),
    .receive 0 (.unsubscribe (some "scan")), .findFirst 0 .owned]

end WebAudit.Realtime
