import WebAudit.Lib.Rows
import WebAudit.Lib.Runs
import Mathlib.Data.Finset.Card

/-!
# The realtime server

`services/realtime/server.ts`. A socket's memberships stand in two places, its connection's own set of rooms and each
room's set of sockets, and the connections of a source address are counted. The handler of a message runs at once,
except that a subscribe waits for its token to be verified and for the scan's owner to be read; meanwhile other
messages of the socket are handled, and it may close.

The two indexes and the count agree in every state, and a member has been authorised (`index_reached`). That a socket ends
with the memberships its messages give in the order in which they have come takes more: see
`WebAudit.Realtime.Order`.
-/

namespace WebAudit.Realtime

open WebAudit.Lib

/-! ### Messages -/

/-- What `parseMessage` makes of a frame. -/
inductive ClientMessage where
  | malformed
  | ping
  | subscribe (scanId token : Option String)
  | unsubscribe (scanId : Option String)
  deriving DecidableEq

inductive Reply where
  | badMessage
  | pong
  | scanIdRequired
  | unsubscribed (scanId : String)
  | unauthorized (scanId : String)
  | forbidden (scanId : String)
  | tooManySubscriptions (scanId : String)
  | subscribed (scanId : String)
  deriving DecidableEq

/-- Where a message's handler is. -/
inductive Pc where
  | verifying (scanId token : String)
  | owning (scanId userId : String)
  /-- `none`: nothing is sent, for want of a connection, or because the read threw. -/
  | done (reply : Option Reply)
  deriving DecidableEq

structure Received where
  socket : ℕ
  message : ClientMessage
  pc : Pc
  deriving DecidableEq

def scanRoom (scanId : String) : String := "scan:" ++ scanId

/-! ### The server -/

structure Connection where
  rooms : Finset String
  sourceKey : String
  deriving DecidableEq

structure RealtimeServerOptions where
  maxRoomsPerConnection : ℕ
  /-- `none` is `Infinity`. -/
  maxConnectionsPerIp : Option ℕ

/-- Sockets are numbered as they connect; a socket that has none any more is at `none` in `connections`. -/
structure Server where
  connections : List (Option Connection)
  rooms : String → Option (Finset ℕ)
  connectionsBySource : String → Option ℕ
  /-- The messages, in the order in which they have come. -/
  received : List Received

namespace Server

variable (s : Server)

def connection (socket : ℕ) : Option Connection := (s.connections[socket]?).join

/-- `rooms.get(room)?.delete(socket)`, and an empty room is dropped. -/
def dropMember (socket : ℕ) : Option (Finset ℕ) → Option (Finset ℕ)
  | none => none
  | some members => if members.erase socket = ∅ then none else some (members.erase socket)

def leaveRooms (socket : ℕ) (left : Finset String) : Server :=
  { s with rooms := fun room => if room ∈ left then dropMember socket (s.rooms room) else s.rooms room }

def setConnection (socket : ℕ) (connection : Option Connection) : Server :=
  { s with connections := s.connections.set socket connection }

def leave (socket : ℕ) (room : String) : Server :=
  match s.connection socket with
  | none => s.leaveRooms socket {room}
  | some connection => (s.leaveRooms socket {room}).setConnection socket (some { connection with rooms := connection.rooms.erase room })

def join (socket : ℕ) (connection : Connection) (room : String) : Server :=
  { s.setConnection socket (some { connection with rooms := insert room connection.rooms }) with
    rooms := Function.update s.rooms room (some (insert socket ((s.rooms room).getD ∅))) }

def cleanup (socket : ℕ) : Server :=
  match s.connection socket with
  | none => s
  | some connection =>
    let remaining := (s.connectionsBySource connection.sourceKey).getD 1 - 1
    { (s.leaveRooms socket connection.rooms).setConnection socket none with
      connectionsBySource :=
        Function.update s.connectionsBySource connection.sourceKey (if remaining = 0 then none else some remaining) }

def connect (sourceKey : String) : Server :=
  { s with
    connections := s.connections ++ [some ⟨∅, sourceKey⟩]
    connectionsBySource :=
      Function.update s.connectionsBySource sourceKey (some ((s.connectionsBySource sourceKey).getD 0 + 1)) }

def record (socket : ℕ) (message : ClientMessage) (pc : Pc) : Server :=
  { s with received := s.received ++ [⟨socket, message, pc⟩] }

/-- The handler, up to where it waits. -/
def receive (socket : ℕ) (message : ClientMessage) : Server :=
  match message with
  | .malformed => s.record socket message (.done (some .badMessage))
  | .ping => s.record socket message (.done (some .pong))
  | .unsubscribe scanId =>
    match scanId.filter (· ≠ "") with
    | none => s.record socket message (.done (some .scanIdRequired))
    | some scanId => (s.leave socket (scanRoom scanId)).record socket message (.done (some (.unsubscribed scanId)))
  | .subscribe scanId token =>
    match scanId.filter (· ≠ "") with
    | none => s.record socket message (.done (some .scanIdRequired))
    | some scanId =>
      match token.filter (· ≠ "") with
      | none => s.record socket message (.done (some (.unauthorized scanId)))
      | some token => s.record socket message (.verifying scanId token)

def setPc (m : ℕ) (received : Received) (pc : Pc) : Server :=
  { s with received := s.received.set m { received with pc } }

/-- After the reads: `subscribed`, unless the connection has gone or its rooms are limited. -/
def apply (options : RealtimeServerOptions) (m : ℕ) (received : Received) (scanId : String) : Server :=
  match s.connection received.socket with
  | none => s.setPc m received (.done none)
  | some connection =>
    if scanRoom scanId ∉ connection.rooms ∧ options.maxRoomsPerConnection ≤ connection.rooms.card then
      s.setPc m received (.done (some (.tooManySubscriptions scanId)))
    else (s.join received.socket connection (scanRoom scanId)).setPc m received (.done (some (.subscribed scanId)))

end Server

/-- What `scan.findFirst` answers. -/
inductive Ownership where
  | owned
  | null
  | threw
  deriving DecidableEq

inductive Action where
  /-- An accepted handshake. -/
  | connect (sourceKey : String)
  | receive (socket : ℕ) (message : ClientMessage)
  /-- `verifyAccessToken`; `none` when it throws. -/
  | verify (m : ℕ) (sub : Option String)
  | findFirst (m : ℕ) (answer : Ownership)
  /-- A close event, or an error event. -/
  | cleanup (socket : ℕ)
  deriving DecidableEq

def next (options : RealtimeServerOptions) (s : Server) : Action → Option Server
  | .connect sourceKey =>
    if options.maxConnectionsPerIp.all fun max => (s.connectionsBySource sourceKey).getD 0 < max then some (s.connect sourceKey)
    else none
  | .receive socket message => if socket < s.connections.length then some (s.receive socket message) else none
  | .verify m sub =>
    match s.received[m]? with
    | none => none
    | some received =>
      match received.pc with
      | .verifying scanId _ =>
        some (s.setPc m received (match sub with
          | none => .done (some (.unauthorized scanId))
          | some userId => .owning scanId userId))
      | _ => none
  | .findFirst m answer =>
    match s.received[m]? with
    | none => none
    | some received =>
      match received.pc with
      | .owning scanId _ =>
        some (match answer with
          | .threw => s.setPc m received (.done none)
          | .null => s.setPc m received (.done (some (.forbidden scanId)))
          | .owned => s.apply options m received scanId)
      | _ => none
  | .cleanup socket => if socket < s.connections.length then some (s.cleanup socket) else none

def step (options : RealtimeServerOptions) (s : Server) (a : Action) (s' : Server) : Prop := next options s a = some s'

def start : Server := ⟨[], fun _ => none, fun _ => none, []⟩

/-! ### The two indexes and the count -/

variable {options : RealtimeServerOptions} {s s' : Server} {a : Action} {socket i m : ℕ} {room key : String}
  {c : Connection} {received : Received}

namespace Server

def members (s : Server) (room : String) : Finset ℕ := (s.rooms room).getD ∅

/-- The live connections of a source. -/
def live (s : Server) (key : String) : ℕ := s.connections.countP fun c => c.any (·.sourceKey = key)

theorem connection_eq : s.connection socket = some c ↔ s.connections[socket]? = some (some c) := by
  unfold connection
  rcases s.connections[socket]? with _ | _ | d <;> simp

theorem connection_set_self {o : Option Connection} (h : socket < s.connections.length) :
    (s.setConnection socket o).connection socket = o := by
  unfold connection setConnection
  dsimp only
  rw [List.getElem?_set_self h]
  rfl

theorem connection_set_ne {o : Option Connection} (h : i ≠ socket) : (s.setConnection socket o).connection i = s.connection i := by
  unfold connection setConnection
  dsimp only
  rw [List.getElem?_set_ne (Ne.symm h)]

theorem lt_of_connection (h : s.connection socket = some c) : socket < s.connections.length :=
  (List.getElem?_eq_some_iff.mp (connection_eq.mp h)).1

theorem getD_dropMember (o : Option (Finset ℕ)) : (dropMember socket o).getD ∅ = (o.getD ∅).erase socket := by
  unfold dropMember
  cases o with
  | none => simp
  | some members =>
    dsimp only
    split
    · rename_i h
      simp [h]
    · rfl

theorem mem_members_leaveRooms {left : Finset String} :
    i ∈ (s.leaveRooms socket left).members room ↔ i ∈ s.members room ∧ ¬ (i = socket ∧ room ∈ left) := by
  unfold members leaveRooms
  dsimp only
  split
  · rename_i h
    rw [getD_dropMember, Finset.mem_erase]
    simp only [h, and_true]
    exact And.comm
  · rename_i h
    simp [h]

theorem dropMember_ne_empty (o : Option (Finset ℕ)) : dropMember socket o ≠ some ∅ := by
  unfold dropMember
  split
  · simp
  · split
    · simp
    · rename_i h
      simpa using h

end Server

/-- The message is an authorised subscribe to the room. -/
def Received.Authorised (received : Received) (room : String) : Prop :=
  ∃ scanId token, room = scanRoom scanId ∧ received.message = .subscribe (some scanId) (some token) ∧
    received.pc = .done (some (.subscribed scanId))

/-- The scan that a waiting handler asks for is the one that its message names. -/
def Received.Faithful (received : Received) : Prop :=
  match received.pc with
  | .verifying scanId token => received.message = .subscribe (some scanId) (some token)
  | .owning scanId _ => ∃ token, received.message = .subscribe (some scanId) (some token)
  | .done _ => True

/-- What holds in every state, of the rooms and of the count. -/
structure Index (options : RealtimeServerOptions) (s : Server) : Prop where
  members : ∀ socket room, socket ∈ s.members room ↔ ∃ c, s.connection socket = some c ∧ room ∈ c.rooms
  nonempty : ∀ room, s.rooms room ≠ some ∅
  authorised : ∀ socket c room, s.connection socket = some c → room ∈ c.rooms →
    ∃ received ∈ s.received, received.socket = socket ∧ received.Authorised room
  limited : ∀ socket c, s.connection socket = some c → c.rooms.card ≤ options.maxRoomsPerConnection
  count : ∀ key, (s.connectionsBySource key).getD 0 = s.live key
  positive : ∀ key, s.connectionsBySource key ≠ some 0
  faithful : ∀ received ∈ s.received, received.Faithful

theorem index_start : Index options start := by
  refine ⟨?_, ?_, ?_, ?_, ?_, ?_, ?_⟩ <;> simp [start, Server.members, Server.connection, Server.live]

/-- What is said of connections and rooms alone, when only messages are added or move on. -/
theorem Index.of_messages (h : Index options s) {messages : List Received}
    (hkeep : ∀ x ∈ s.received, ∀ room, x.Authorised room → ∃ y ∈ messages, y.socket = x.socket ∧ y.Authorised room)
    (hf : ∀ x ∈ messages, x.Faithful) : Index options { s with received := messages } where
  members := h.members
  nonempty := h.nonempty
  authorised socket c room hc hr := by
    obtain ⟨x, hx, hs, ha⟩ := h.authorised socket c room hc hr
    obtain ⟨y, hy, hys, hya⟩ := hkeep x hx room ha
    exact ⟨y, hy, hys.trans hs, hya⟩
  limited := h.limited
  count := h.count
  positive := h.positive
  faithful := hf

theorem Index.record (h : Index options s) {message : ClientMessage} {pc : Pc} (hf : Received.Faithful ⟨socket, message, pc⟩) :
    Index options (s.record socket message pc) := by
  refine h.of_messages (fun x hx room ha => ⟨x, List.mem_append_left _ hx, rfl, ha⟩) fun x hx => ?_
  rcases List.mem_append.mp hx with hx | hx
  · exact h.faithful x hx
  · obtain rfl := List.mem_singleton.mp hx
    exact hf

/-- A waiting handler moves on: no message that has been authorised is touched. -/
theorem Index.setPc (h : Index options s) {pc : Pc} (hm : s.received[m]? = some received)
    (hwait : ∀ room, ¬ received.Authorised room) (hf : Received.Faithful { received with pc }) :
    Index options (s.setPc m received pc) := by
  refine h.of_messages (fun x hx room ha => ?_) fun x hx => ?_
  · obtain ⟨j, hj⟩ := List.mem_iff_getElem?.mp hx
    have hne : m ≠ j := by
      rintro rfl
      obtain rfl := Option.some.inj (hm.symm.trans hj)
      exact hwait room ha
    exact ⟨x, List.mem_iff_getElem?.mpr ⟨j, by rw [List.getElem?_set_ne hne, hj]⟩, rfl, ha⟩
  · rcases List.mem_or_eq_of_mem_set hx with hx | rfl
    · exact h.faithful x hx
    · exact hf

/-- A connection's source is counted as before when it changes its rooms only. -/
theorem Server.live_setConnection_same (h : s.connection socket = some c) {c' : Connection} (hkey : c'.sourceKey = c.sourceKey) :
    (s.setConnection socket (some c')).live key = s.live key := by
  have hcount := countP_set_add (fun x : Option Connection => x.any (·.sourceKey = key)) (some c') (connection_eq.mp h)
  simp only [Option.any_some, hkey] at hcount
  unfold live setConnection
  dsimp only
  omega

theorem Index.leave (h : Index options s) (socket : ℕ) (room : String) : Index options (s.leave socket room) := by
  unfold Server.leave
  rcases hc : s.connection socket with _ | c
  · dsimp only
    have hnot : ∀ room', socket ∉ s.members room' := fun room' hmem => by
      obtain ⟨c, hc', -⟩ := (h.members socket room').mp hmem
      simp [hc] at hc'
    refine ⟨fun i room' => ?_, fun room' => ?_, h.authorised, h.limited, h.count, h.positive, h.faithful⟩
    · rw [Server.mem_members_leaveRooms]
      refine Iff.trans ?_ (h.members i room')
      exact ⟨And.left, fun hmem => ⟨hmem, fun heq => hnot room' (heq.1 ▸ hmem)⟩⟩
    · unfold Server.leaveRooms
      dsimp only
      split
      · exact Server.dropMember_ne_empty _
      · exact h.nonempty room'
  · dsimp only
    have hlt := Server.lt_of_connection hc
    let c' : Connection := { c with rooms := c.rooms.erase room }
    let u := s.leaveRooms socket {room}
    have hself : (u.setConnection socket (some c')).connection socket = some c' := Server.connection_set_self hlt
    have hother : ∀ i, i ≠ socket → (u.setConnection socket (some c')).connection i = s.connection i := fun i hi =>
      Server.connection_set_ne hi
    refine ⟨fun i room' => ?_, fun room' => ?_, fun i d room' hd hr => ?_, fun i d hd => ?_, fun key => ?_, h.positive, h.faithful⟩
    · show i ∈ u.members room' ↔ _
      rw [Server.mem_members_leaveRooms, h.members]
      by_cases hi : i = socket
      · subst hi
        rw [hself, hc]
        simp [c', and_comm]
      · rw [hother i hi]
        simp [hi]
    · show (u.rooms room') ≠ some ∅
      simp only [u, Server.leaveRooms]
      split
      · exact Server.dropMember_ne_empty _
      · exact h.nonempty room'
    · by_cases hi : i = socket
      · subst hi
        rw [hself] at hd
        obtain rfl := Option.some.inj hd
        exact h.authorised i c room' hc (Finset.mem_of_mem_erase hr)
      · rw [hother i hi] at hd
        exact h.authorised i d room' hd hr
    · by_cases hi : i = socket
      · subst hi
        rw [hself] at hd
        obtain rfl := Option.some.inj hd
        exact Nat.le_trans (Finset.card_erase_le) (h.limited i c hc)
      · rw [hother i hi] at hd
        exact h.limited i d hd
    · rw [show (u.setConnection socket (some c')).live key = s.live key from Server.live_setConnection_same hc rfl]
      exact h.count key

/-- A join, whose authorised message stands in the list by then. -/
theorem Index.join (h : Index options s) (hc : s.connection socket = some c)
    (hroom : room ∈ c.rooms ∨ c.rooms.card < options.maxRoomsPerConnection)
    (hauth : ∃ x ∈ s.received, x.socket = socket ∧ x.Authorised room) : Index options (s.join socket c room) := by
  have hlt := Server.lt_of_connection hc
  let c' : Connection := { c with rooms := insert room c.rooms }
  have hself : (s.join socket c room).connection socket = some c' := Server.connection_set_self hlt
  have hother : ∀ i, i ≠ socket → (s.join socket c room).connection i = s.connection i := fun i hi => Server.connection_set_ne hi
  have hmembers : ∀ i room', i ∈ (s.join socket c room).members room' ↔ i ∈ s.members room' ∨ (i = socket ∧ room' = room) := by
    intro i room'
    unfold Server.members Server.join
    dsimp only
    by_cases hr : room' = room
    · subst hr
      rw [Function.update_self]
      simp [or_comm]
    · rw [Function.update_of_ne hr]
      simp [hr]
  refine ⟨fun i room' => ?_, fun room' => ?_, fun i d room' hd hr => ?_, fun i d hd => ?_, fun key => ?_, h.positive, h.faithful⟩
  · rw [hmembers, h.members]
    by_cases hi : i = socket
    · subst hi
      rw [hself, hc]
      simp [c', or_comm]
    · rw [hother i hi]
      simp [hi]
  · unfold Server.join
    dsimp only
    by_cases hr : room' = room
    · subst hr
      rw [Function.update_self]
      simp
    · rw [Function.update_of_ne hr]
      exact h.nonempty room'
  · by_cases hi : i = socket
    · subst hi
      rw [hself] at hd
      obtain rfl := Option.some.inj hd
      rcases Finset.mem_insert.mp hr with rfl | hr
      · exact hauth
      · exact h.authorised i c room' hc hr
    · rw [hother i hi] at hd
      exact h.authorised i d room' hd hr
  · by_cases hi : i = socket
    · subst hi
      rw [hself] at hd
      obtain rfl := Option.some.inj hd
      show (insert room c.rooms).card ≤ _
      rcases hroom with hmem | hlim
      · rw [Finset.insert_eq_of_mem hmem]
        exact h.limited i c hc
      · exact Nat.le_trans (Finset.card_insert_le _ _) hlim
    · rw [hother i hi] at hd
      exact h.limited i d hd
  · rw [show (s.join socket c room).live key = s.live key from Server.live_setConnection_same hc rfl]
    exact h.count key

theorem Index.cleanup (h : Index options s) (socket : ℕ) : Index options (s.cleanup socket) := by
  unfold Server.cleanup
  rcases hc : s.connection socket with _ | c
  · exact h
  dsimp only
  have hlt := Server.lt_of_connection hc
  let u := s.leaveRooms socket c.rooms
  have hself : (u.setConnection socket none).connection socket = none := Server.connection_set_self hlt
  have hother : ∀ i, i ≠ socket → (u.setConnection socket none).connection i = s.connection i := fun i hi =>
    Server.connection_set_ne hi
  have hlive : ∀ key, (u.setConnection socket none).live key + (if c.sourceKey = key then 1 else 0) = s.live key := by
    intro key
    have hcount := countP_set_add (fun x : Option Connection => x.any (·.sourceKey = key)) none (Server.connection_eq.mp hc)
    simpa [Server.live, Server.setConnection, u, Server.leaveRooms] using hcount
  have hkey : (s.connectionsBySource c.sourceKey).getD 1 = s.live c.sourceKey := by
    have hone := hlive c.sourceKey
    have hcount := h.count c.sourceKey
    rw [if_pos rfl] at hone
    rcases hs : s.connectionsBySource c.sourceKey with _ | n
    · rw [hs] at hcount
      simp only [Option.getD_none] at hcount
      omega
    · rw [hs] at hcount
      simpa using hcount
  refine ⟨fun i room' => ?_, fun room' => ?_, fun i d room' hd hr => ?_, fun i d hd => ?_, fun key => ?_, fun key => ?_, h.faithful⟩
  · show i ∈ u.members room' ↔ ∃ d, (u.setConnection socket none).connection i = some d ∧ room' ∈ d.rooms
    rw [Server.mem_members_leaveRooms, h.members]
    by_cases hi : i = socket
    · subst hi
      rw [hself, hc]
      simp
    · rw [hother i hi]
      simp [hi]
  · show u.rooms room' ≠ some ∅
    simp only [u, Server.leaveRooms]
    split
    · exact Server.dropMember_ne_empty _
    · exact h.nonempty room'
  · by_cases hi : i = socket
    · subst hi
      exact absurd (hself.symm.trans hd) (by simp)
    · exact h.authorised i d room' ((hother i hi).symm.trans hd) hr
  · by_cases hi : i = socket
    · subst hi
      exact absurd (hself.symm.trans hd) (by simp)
    · exact h.limited i d ((hother i hi).symm.trans hd)
  · have hk := hlive key
    show (Function.update s.connectionsBySource c.sourceKey _ key).getD 0 = (u.setConnection socket none).live key
    rw [hkey]
    by_cases hne : key = c.sourceKey
    · subst hne
      rw [Function.update_self]
      rw [if_pos rfl] at hk
      split
      · rw [Option.getD_none]
        omega
      · rw [Option.getD_some]
        omega
    · rw [Function.update_of_ne hne, h.count]
      rw [if_neg (Ne.symm hne)] at hk
      omega
  · show Function.update s.connectionsBySource c.sourceKey _ key ≠ some 0
    by_cases hne : key = c.sourceKey
    · subst hne
      rw [Function.update_self]
      split
      · simp
      · rename_i hzero
        simpa using hzero
    · rw [Function.update_of_ne hne]
      exact h.positive key

theorem Index.connect (h : Index options s) (sourceKey : String) : Index options (s.connect sourceKey) := by
  have hcases : ∀ i d, (s.connect sourceKey).connection i = some d → s.connection i = some d ∨ d = ⟨∅, sourceKey⟩ := by
    intro i d hd
    rw [Server.connection_eq] at hd ⊢
    unfold Server.connect at hd
    dsimp only at hd
    by_cases hi : i < s.connections.length
    · exact .inl (by rwa [List.getElem?_append_left hi] at hd)
    · rw [List.getElem?_append_right (by omega)] at hd
      have hmem := List.mem_of_getElem? hd
      simp only [List.mem_singleton, Option.some.injEq] at hmem
      exact .inr hmem
  have hold : ∀ i d, s.connection i = some d → (s.connect sourceKey).connection i = some d := by
    intro i d hd
    rw [Server.connection_eq] at hd ⊢
    unfold Server.connect
    dsimp only
    rw [List.getElem?_append_left (List.getElem?_eq_some_iff.mp hd).1, hd]
  refine ⟨fun i room' => ?_, h.nonempty, fun i d room' hd hr => ?_, fun i d hd => ?_, fun key => ?_, fun key => ?_, h.faithful⟩
  · show i ∈ s.members room' ↔ _
    rw [h.members]
    constructor
    · rintro ⟨d, hd, hr⟩
      exact ⟨d, hold i d hd, hr⟩
    · rintro ⟨d, hd, hr⟩
      rcases hcases i d hd with hd | rfl
      · exact ⟨d, hd, hr⟩
      · simp at hr
  · rcases hcases i d hd with hd | rfl
    · exact h.authorised i d room' hd hr
    · simp at hr
  · rcases hcases i d hd with hd | rfl
    · exact h.limited i d hd
    · simp
  · have hcount := h.count key
    have hlive : (s.connect sourceKey).live key = s.live key + if sourceKey = key then 1 else 0 := by
      simp [Server.live, Server.connect, List.countP_append, List.countP_singleton]
    rw [hlive]
    show (Function.update s.connectionsBySource sourceKey _ key).getD 0 = _
    by_cases hne : key = sourceKey
    · subst hne
      rw [Function.update_self, Option.getD_some, if_pos rfl, hcount]
    · rw [Function.update_of_ne hne, if_neg (Ne.symm hne), hcount]
      rfl
  · show Function.update s.connectionsBySource sourceKey _ key ≠ some 0
    by_cases hne : key = sourceKey
    · subst hne
      rw [Function.update_self]
      simp
    · rw [Function.update_of_ne hne]
      exact h.positive key

/-- A handler that waits has not been answered. -/
theorem Received.not_authorised (h : ∀ reply, received.pc ≠ .done reply) : ¬ received.Authorised room := by
  rintro ⟨scanId, token, -, -, hpc⟩
  exact h _ hpc

theorem Index.apply (h : Index options s) {scanId userId : String} (hm : s.received[m]? = some received)
    (hpc : received.pc = .owning scanId userId) : Index options (s.apply options m received scanId) := by
  have hwait : ∀ room, ¬ received.Authorised room := fun room => Received.not_authorised fun reply => by simp [hpc]
  unfold Server.apply
  rcases hc : s.connection received.socket with _ | c
  · exact h.setPc hm hwait trivial
  dsimp only
  split
  · exact h.setPc hm hwait trivial
  · rename_i hnot
    have hset : Index options (s.setPc m received (.done (some (.subscribed scanId)))) := h.setPc hm hwait trivial
    have hlt := (List.getElem?_eq_some_iff.mp hm).1
    refine hset.join hc ?_ ⟨_, List.mem_iff_getElem?.mpr ⟨m, List.getElem?_set_self hlt⟩, rfl, ?_⟩
    · by_cases hmem : scanRoom scanId ∈ c.rooms
      · exact .inl hmem
      · exact .inr (Nat.lt_of_not_le fun hle => hnot ⟨hmem, hle⟩)
    · have hf := h.faithful received (List.mem_of_getElem? hm)
      unfold Received.Faithful at hf
      rw [hpc] at hf
      obtain ⟨token, hf⟩ := hf
      exact ⟨scanId, token, rfl, hf, rfl⟩

theorem Index.receive (h : Index options s) (socket : ℕ) (message : ClientMessage) : Index options (s.receive socket message) := by
  unfold Server.receive
  cases message with
  | malformed => exact h.record trivial
  | ping => exact h.record trivial
  | unsubscribe scanId =>
    dsimp only
    split
    · exact h.record trivial
    · exact (h.leave socket _).record trivial
  | subscribe scanId token =>
    dsimp only
    split
    · exact h.record trivial
    · rename_i scanId' hscan
      split
      · exact h.record trivial
      · rename_i token' htoken
        refine h.record ?_
        show ClientMessage.subscribe scanId token = .subscribe (some scanId') (some token')
        rw [(Option.filter_eq_some_iff.mp hscan).1, (Option.filter_eq_some_iff.mp htoken).1]

theorem Index.step (h : Index options s) (hs : step options s a s') : Index options s' := by
  unfold Realtime.step next at hs
  cases a with
  | connect sourceKey =>
    dsimp only at hs
    split at hs
    · obtain rfl := Option.some.inj hs
      exact h.connect sourceKey
    · cases hs
  | receive socket message =>
    dsimp only at hs
    split at hs
    · obtain rfl := Option.some.inj hs
      exact h.receive socket message
    · cases hs
  | verify m sub =>
    dsimp only at hs
    split at hs
    · cases hs
    · rename_i received hm
      split at hs
      · rename_i scanId token hpc
        obtain rfl := Option.some.inj hs
        refine h.setPc hm (fun room => Received.not_authorised fun reply => by simp [hpc]) ?_
        cases sub with
        | none => trivial
        | some userId =>
          have hf := h.faithful received (List.mem_of_getElem? hm)
          unfold Received.Faithful at hf
          rw [hpc] at hf
          exact ⟨token, hf⟩
      · cases hs
  | findFirst m answer =>
    dsimp only at hs
    split at hs
    · cases hs
    · rename_i received hm
      split at hs
      · rename_i scanId userId hpc
        obtain rfl := Option.some.inj hs
        have hwait : ∀ room, ¬ received.Authorised room := fun room => Received.not_authorised fun reply => by simp [hpc]
        cases answer with
        | owned => exact h.apply hm hpc
        | null => exact h.setPc hm hwait trivial
        | threw => exact h.setPc hm hwait trivial
      · cases hs
  | cleanup socket =>
    dsimp only at hs
    split at hs
    · obtain rfl := Option.some.inj hs
      exact h.cleanup socket
    · cases hs

theorem index_reached (h : Reaches (step options) start s) : Index options s :=
  h.inv index_start fun _ _ _ hu hs => hu.step hs

end WebAudit.Realtime
