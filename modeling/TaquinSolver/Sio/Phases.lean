import TaquinSolver.Concurrent.Runs
import TaquinSolver.Sio.Client

/-! The phases of a client: what it is doing about its connection, as a small machine that each step
of the client follows.  The client is in one phase at a time, so there is one attempt or connection
at a time. -/

namespace Sio

open Java (Text)

namespace Handler

def isConnect : Handler → Bool
  | .connectImpl .. => true
  | _ => false

def isTimeout : Handler → Bool
  | .timeoutReconnect => true
  | _ => false

end Handler

/-- What a client is doing about its connection. -/
inductive Phase
  | idle
  /-- `connect_impl` waits for the thread of the network. -/
  | starting
  | attempting
  | connected
  /-- The timer of the next attempt runs. -/
  | waiting
  /-- The timer has expired, and its handler waits. -/
  | due
deriving DecidableEq

namespace Phase

def count (p q : Phase) : Nat := if p = q then 1 else 0

@[simp] theorem count_self (p : Phase) : p.count p = 1 := if_pos rfl

theorem eq_of_count {p q : Phase} {n : Nat} (h : n = p.count q) (hn : 0 < n) : p = q := by
  unfold count at h
  split at h
  · assumption
  · omega

/-- The states of a client in a phase.  A call of `close` leaves the phase as it is. -/
def allows : Phase → ConState → Bool
  | _, .closing | .idle, .opening | .idle, .closed | .starting, .opening | .attempting, .opening
  | .connected, .opened | .waiting, .closed | .due, .closed => true
  | _, _ => false

theorem allows_idle {p : Phase} {state : ConState} (h : p.allows state = true)
    (hp : p ≠ .connected) : idle.allows state = true := by
  cases p <;> cases state <;> first | rfl | exact absurd h (by decide) | exact absurd rfl hp

theorem allows_closing (p : Phase) : p.allows .closing = true := by
  cases p <;> rfl

theorem allows_due {state : ConState} (h : waiting.allows state = true) :
    due.allows state = true := by
  cases state <;> first | rfl | cases h

end Phase

/-- An effect that says nothing about the connection. -/
def Effect.isAside : Effect → Bool
  | .sent _ | .socketsClose => true
  | _ => false

/-- What follows a phase, with the attempts made before and after, and what the client does.  Only
what has `interrupted` the client makes it idle in silence. -/
inductive Phase.Next (valid : String → Bool) (r : Reconnection) (interrupted : Prop) :
    Phase → UInt32 → List Effect → Phase → UInt32 → Prop
  | stay (p : Phase) (made : UInt32) {es : List Effect} (h : ∀ e ∈ es, e.isAside = true) :
      Next valid r interrupted p made es p made
  | connect (made : UInt32) : Next valid r interrupted .idle made [.runLoop] .starting 0
  | attempt (made : UInt32) {uri : String} (queryString : String) (hValid : valid uri = true) :
      Next valid r interrupted .starting made [.attempt uri "" queryString] .attempting made
  | reject (made : UInt32) : Next valid r interrupted .starting made [.failListener] .idle made
  | answer (made : UInt32) :
      Next valid r interrupted .attempting made [.socketsOpen, .openListener] .connected 0
  | lose {p : Phase} {made : UInt32} (hp : p = .attempting ∨ p = .connected)
      (h : made < r.attempts) : Next valid r interrupted p made
        [.socketsDisconnect, .reconnectListener made (r.nextDelay made)] .waiting made
  | giveUp {made : UInt32} (h : ¬made < r.attempts) :
      Next valid r interrupted .attempting made [.socketsDisconnect, .failListener] .idle made
  | drop {made : UInt32} (h : ¬made < r.attempts) :
      Next valid r interrupted .connected made [.socketsDisconnect, .closeListener .drop] .idle made
  | finish (made : UInt32) : Next valid r interrupted .connected made
      [.socketsDisconnect, .closeListener .normal] .idle made
  | expire (made : UInt32) : Next valid r interrupted .waiting made [] .due made
  | cancel (made : UInt32) (h : interrupted) : Next valid r interrupted .waiting made [] .idle made
  | retry (made : UInt32) {uri : String} (queryString : String) (hValid : valid uri = true) :
      Next valid r interrupted .due made
        [.reconnectingListener, .attempt uri "" queryString] .attempting (made + 1)
  | reject' (made : UInt32) :
      Next valid r interrupted .due made [.reconnectingListener, .failListener] .idle (made + 1)
  | late (made : UInt32) (h : interrupted) : Next valid r interrupted .due made [] .idle made

/-- What the server, or an error, does to a connection. -/
inductive Connection.Alters (k : Connection) (i : Nat) : Action → Connection → Prop
  | closeFrame (payload : Text) : Alters k i (.closeFrame i payload) (k.closeFrame payload)
  | unreadable (code : Nat) : Alters k i (.unreadable i code) (k.unreadable code)
  | terminated {error : Bool} (h : error = true ∨ k.state ≠ .opened) :
      Alters k i (.terminated i error) (k.terminate error)

namespace Client

/-! ### What a step can do -/

inductive Moves (valid : String → Bool) (c : Client) : Action → Client → Prop
  | ignored {uri queryString : String}
      (hState : c.conState = .opening ∨ c.conState = .opened) :
      Moves valid c (.connect uri queryString) { c with reconnTimer := false }
  | joins {uri queryString : String} (hThread : c.networkThread = true)
      (hState : c.conState = .closing ∨ c.conState = .closed) :
      Moves valid c (.connect uri queryString)
        { c with reconnTimer := false, joining := some (.connect uri queryString) }
  | starts {uri queryString : String} (hThread : c.networkThread = false) :
      Moves valid c (.connect uri queryString)
        ({ c with reconnTimer := false }.restart uri queryString)
  | closes {a : Action} {payloads : List Payload} {joining : Option Joining}
      (h : a = .close payloads ∨ a = .syncClose payloads)
      (hJoin : joining = c.joining ∨ joining = some .syncClose) :
      Moves valid c a { c.close payloads with joining := joining }
  | sends (payload : Payload) : Moves valid c (.send payload)
      { c with handlers := c.handlers ++ [.sendImpl payload] }
  | sets {a : Action} {r : Reconnection} (h : (∃ n, a = .setReconnectAttempts n) ∨
        (∃ n, a = .setReconnectDelay n) ∨ ∃ n, a = .setReconnectDelayMax n) :
      Moves valid c a { c with reconnection := r }
  | joinedConnect {uri queryString : String} (hLoop : c.looping = false)
      (hJoin : c.joining = some (.connect uri queryString)) :
      Moves valid c .joined (c.restart uri queryString)
  | joinedClose (hLoop : c.looping = false) (hJoin : c.joining = some .syncClose) :
      Moves valid c .joined { c with networkThread := false, joining := none }
  | attempts {uri queryString : String} {hs : List Handler}
      (hHandlers : c.handlers = .connectImpl uri queryString :: hs) (hValid : valid uri = true) :
      Moves valid c .handler { c with
        handlers := hs
        attempts := c.attempts + 1
        effects := c.effects ++ [.attempt uri c.sid queryString] }
  | rejects {uri queryString : String} {hs : List Handler}
      (hHandlers : c.handlers = .connectImpl uri queryString :: hs) :
      Moves valid c .handler { c with
        handlers := hs
        effects := c.effects ++ [.failListener] }
  | closeHandler {code : Nat} {hs : List Handler} (hHandlers : c.handlers = .closeImpl code :: hs) :
      Moves valid c .handler ({ c with handlers := hs }.closeImpl code)
  | reattempts {hs : List Handler} (hHandlers : c.handlers = .timeoutReconnect :: hs)
      (hState : c.conState = .closed) (hValid : valid c.baseUrl = true) :
      Moves valid c .handler { c with
        handlers := hs
        conState := .opening
        reconnMade := c.reconnMade + 1
        sid := ""
        attempts := c.attempts + 1
        effects := c.effects ++ [.reconnectingListener] ++ [.attempt c.baseUrl "" c.queryString] }
  | rerejects {hs : List Handler} (hHandlers : c.handlers = .timeoutReconnect :: hs)
      (hState : c.conState = .closed) : Moves valid c .handler { c with
        handlers := hs
        conState := .opening
        reconnMade := c.reconnMade + 1
        sid := ""
        effects := c.effects ++ [.reconnectingListener] ++ [.failListener] }
  | late {hs : List Handler} (hHandlers : c.handlers = .timeoutReconnect :: hs)
      (hState : c.conState ≠ .closed) : Moves valid c .handler { c with handlers := hs }
  | sendHandler {payload : Payload} {hs : List Handler}
      (hHandlers : c.handlers = .sendImpl payload :: hs) :
      Moves valid c .handler ({ c with handlers := hs }.sendImpl payload)
  | sendHere (payload : Payload) : Moves valid c (.sendHere payload) (c.sendImpl payload)
  | pings : Moves valid c .ping c.ping
  | expired (hTimer : c.reconnTimer = true) : Moves valid c .expired
      { c with reconnTimer := false, handlers := c.handlers ++ [.timeoutReconnect] }
  | opened (hAttempts : 0 < c.attempts) : Moves valid c .opened
      { c with
        attempts := c.attempts - 1
        connections := .opened :: c.connections
        conState := .opened
        con := true
        reconnMade := 0
        effects := c.effects ++ [.socketsOpen, .openListener] }
  | failed (hAttempts : 0 < c.attempts) : Moves valid c .failed
      (({ c with
        attempts := c.attempts - 1
        con := false
        conState := .closed
        effects := c.effects ++ [.socketsDisconnect] } : Client).reconnect .failListener)
  | alters {a : Action} {i : Nat} {k k' : Connection} (hk : c.connections[i]? = some k)
      (h : k.Alters i a k') : Moves valid c a { c with connections := c.connections.set i k' }
  | ended {i : Nat} {k : Connection} (hk : c.connections[i]? = some k)
      (hClosed : k.state = .closed) : Moves valid c (.ended i)
        ({ c with connections := c.connections.eraseIdx i }.onClose k.localCloseCode)
  | handshake (sid : String) (hHears : c.hears = true) :
      Moves valid c (.handshake (some sid)) { c with sid := sid }
  | aborts {a : Action} {code : Nat} (h : a = .timeoutPong ∨
        (a = .handshake none ∨ a = .frameClose) ∧ c.hears = true) :
      Moves valid c a (c.closeImpl code)
  | runEnds (hHandlers : c.handlers = []) (hAttempts : c.attempts = 0) (hConn : c.connections = [])
      (hTimer : c.reconnTimer = false) : Moves valid c .runEnds { c with looping := false }

variable {valid : String → Bool} {c c' : Client} {a : Action}

theorem reconnect_shape (c : Client) (last : Effect) :
    ∃ timer es, c.reconnect last = { c with reconnTimer := timer, effects := es } := by
  unfold reconnect
  split
  · exact ⟨_, _, rfl⟩
  · exact ⟨_, _, rfl⟩

theorem onClose_shape (c : Client) (code : Nat) :
    ∃ timer es, c.onClose code =
      { c with conState := .closed, con := false, reconnTimer := timer, effects := es } := by
  unfold onClose
  dsimp only
  split
  · exact ⟨_, _, rfl⟩
  · obtain ⟨timer, es, hShape⟩ := reconnect_shape
      ({ c with conState := .closed, con := false }.emit [.socketsDisconnect])
      (.closeListener .drop)
    exact ⟨timer, es, hShape⟩

theorem put_cases (c : Client) (payload : Payload) :
    c.put payload = c ∨ c.put payload = c.emit [.sent payload] := by
  unfold put
  split
  · split
    · exact .inr rfl
    · exact .inl rfl
  · exact .inl rfl

theorem sendImpl_cases (c : Client) (payload : Payload) :
    c.sendImpl payload = c ∨ c.sendImpl payload = c.emit [.sent payload] := by
  unfold sendImpl
  split
  · exact c.put_cases payload
  · exact .inl rfl

theorem ping_cases (c : Client) : c.ping = c ∨ c.ping = c.emit [.sent .ping] := by
  unfold ping
  split
  · exact c.put_cases .ping
  · exact .inl rfl

/-- A message that is heard came on a connection. -/
theorem connections_of_hears (h : c.hears = true) : c.connections ≠ [] := by
  intro hNil
  rw [hears, hNil] at h
  cases h

theorem call_moves (h : c.call a = some c') : Moves valid c a c' := by
  cases a <;> cases h
  case connect uri queryString =>
    unfold connect
    dsimp only
    split
    · split
      · exact .joins ‹_› (.inl ‹_›)
      · exact .joins ‹_› (.inr ‹_›)
      · exact .ignored (.inl ‹_›)
      · exact .ignored (.inr ‹_›)
    · exact .starts (by simpa using ‹¬c.networkThread = true›)
  case close payloads => exact .closes (.inl rfl) (.inl rfl)
  case syncClose payloads =>
    unfold syncClose
    simp only
    split
    · exact .closes (.inr rfl) (.inr rfl)
    · exact .closes (.inr rfl) (.inl rfl)
  case send payload => exact .sends payload
  case setReconnectAttempts n => exact .sets (.inl ⟨n, rfl⟩)
  case setReconnectDelay n => exact .sets (.inr (.inl ⟨n, rfl⟩))
  case setReconnectDelayMax n => exact .sets (.inr (.inr ⟨n, rfl⟩))

theorem handler_moves {h : Handler} {hs : List Handler} (hHandlers : c.handlers = h :: hs) :
    Moves valid c .handler ({ c with handlers := hs }.runHandler valid h) := by
  cases h with
  | connectImpl uri queryString =>
    simp only [runHandler, connectImpl]
    split
    · exact .attempts hHandlers ‹_›
    · exact .rejects hHandlers
  | closeImpl code => exact .closeHandler hHandlers
  | timeoutReconnect =>
    simp only [runHandler, timeoutReconnect, connectImpl]
    split
    · split
      · exact .reattempts hHandlers ‹_› ‹_›
      · exact .rerejects hHandlers ‹_›
    · exact .late hHandlers ‹_›
  | sendImpl payload => exact .sendHandler hHandlers

theorem loop_moves (h : c.loop valid a = some c') : Moves valid c a c' := by
  cases a with
  | handler =>
    simp only [loop] at h
    split at h
    · cases h
      exact handler_moves ‹_›
    · cases h
  | sendHere payload =>
    cases h
    exact .sendHere payload
  | expired =>
    simp only [loop] at h
    split at h <;> cases h
    exact .expired ‹_›
  | opened =>
    simp only [loop] at h
    split at h <;> cases h
    exact .opened ‹_›
  | failed =>
    simp only [loop] at h
    split at h <;> cases h
    exact .failed ‹_›
  | ping =>
    cases h
    exact .pings
  | closeFrame i payload =>
    simp only [loop, Option.map_eq_some_iff] at h
    obtain ⟨k, hk, rfl⟩ := h
    exact .alters hk (.closeFrame payload)
  | unreadable i code =>
    simp only [loop, Option.map_eq_some_iff] at h
    obtain ⟨k, hk, rfl⟩ := h
    exact .alters hk (.unreadable code)
  | terminated i error =>
    simp only [loop] at h
    split at h
    · split at h <;> cases h
      rename_i hk hError
      exact .alters hk (.terminated (by simpa using hError))
    · cases h
  | ended i =>
    simp only [loop] at h
    split at h
    · split at h <;> cases h
      exact .ended ‹_› ‹_›
    · cases h
  | handshake sid =>
    simp only [loop] at h
    split at h
    · split at h <;> cases h
      · exact .handshake _ ‹_›
      · exact .aborts (.inr ⟨.inl rfl, ‹_›⟩)
    · cases h
  | frameClose =>
    simp only [loop] at h
    split at h <;> cases h
    exact .aborts (.inr ⟨.inr rfl, ‹_›⟩)
  | timeoutPong =>
    cases h
    exact .aborts (.inl rfl)
  | runEnds =>
    simp only [loop] at h
    split at h
    · split at h <;> cases h
      rename_i hHandlers hConn hIdle
      exact .runEnds hHandlers hIdle.1 hConn hIdle.2
    · cases h
  | connect | close | syncClose | send | setReconnectAttempts | setReconnectDelay
  | setReconnectDelayMax | joined => cases h

theorem step_moves (h : step valid c a = some c') : Moves valid c a c' := by
  unfold step at h
  split at h
  case h_8 =>
    split at h
    · cases h
    · unfold join at h
      split at h <;> cases h
      · exact .joinedConnect (by simpa using ‹¬c.looping = true›) ‹_›
      · exact .joinedClose (by simpa using ‹¬c.looping = true›) ‹_›
  case h_9 =>
    split at h
    · exact loop_moves h
    · cases h
  all_goals
    split at h
    · exact call_moves h
    · cases h

/-! ### One attempt or connection at a time -/

/-- The posted `connect_impl`s. -/
def connecting (c : Client) : Nat := c.handlers.countP Handler.isConnect

/-- The expired timers whose handler waits. -/
def due (c : Client) : Nat := c.handlers.countP Handler.isTimeout

/-- The client is in the phase, and in this phase only. -/
structure At (c : Client) (p : Phase) : Prop where
  connecting : c.connecting = p.count .starting
  attempts : c.attempts = p.count .attempting
  connections : c.connections.length = p.count .connected
  timer : c.reconnTimer.toNat = p.count .waiting
  due : c.due = p.count .due
  con : c.con.toNat = p.count .connected
  state : p.allows c.conState = true
  looping : p = .idle ∨ c.looping = true
  thread : c.looping = true → c.networkThread = true
  sid : p = .starting → c.sid = ""

theorem at_create (r : Reconnection) : (create r).At .idle :=
  ⟨rfl, rfl, rfl, rfl, rfl, rfl, rfl, .inl rfl, (fun h => by cases h), fun _ => rfl⟩

/-- The client without its next handler. -/
theorem handlers_cons {h : Handler} {hs : List Handler} (hHandlers : c.handlers = h :: hs) :
    c.connecting = hs.countP Handler.isConnect + h.isConnect.toNat ∧
      c.due = hs.countP Handler.isTimeout + h.isTimeout.toNat := by
  unfold connecting due
  rw [hHandlers, List.countP_cons, List.countP_cons]
  cases h <;> exact ⟨rfl, rfl⟩

theorem At.emit {p : Phase} (h : c.At p) (es : List Effect) : (c.emit es).At p := { h with }

theorem At.connected_of_opened {p : Phase} (h : c.At p) (hState : c.conState = .opened) :
    p = .connected := by
  have hAllows := h.state
  rw [hState] at hAllows
  cases p <;> first | rfl | cases hAllows

theorem At.connected_of_hears {p : Phase} (h : c.At p) (hHears : c.hears = true) :
    p = .connected :=
  Phase.eq_of_count h.connections (List.length_pos_iff.2 (connections_of_hears hHears))

theorem At.isLooping {p : Phase} (h : c.At p) (hp : p ≠ .idle) : c.looping = true :=
  h.looping.resolve_left hp

theorem At.idle_of_stopped {p : Phase} (h : c.At p) (hLoop : c.looping = false) : p = .idle := by
  by_contra hp
  rw [h.isLooping hp] at hLoop
  cases hLoop

theorem At.idle_of_quiet {p : Phase} (h : c.At p) (hHandlers : c.handlers = [])
    (hAttempts : c.attempts = 0) (hConn : c.connections = []) (hTimer : c.reconnTimer = false) :
    p = .idle := by
  obtain ⟨hConnecting, hAtt, hLen, hTim, hDue, -, -, -, -, -⟩ := h
  rw [Client.connecting, hHandlers] at hConnecting
  rw [Client.due, hHandlers] at hDue
  rw [hAttempts] at hAtt
  rw [hConn] at hLen
  rw [hTimer] at hTim
  cases p with
  | idle => rfl
  | starting => cases hConnecting
  | attempting => cases hAtt
  | connected => cases hLen
  | waiting => cases hTim
  | due => cases hDue

theorem At.single {p : Phase} (h : c.At p) :
    c.connecting + c.attempts + c.connections.length + c.reconnTimer.toNat + c.due ≤ 1 := by
  rw [h.connecting, h.attempts, h.connections, h.timer, h.due]
  cases p <;> decide

/-! Handlers that are taken or posted. -/

theorem At.take {p : Phase} (h : c.At p) {hd : Handler} {hs : List Handler}
    (hHandlers : c.handlers = hd :: hs) (hConnect : hd.isConnect = false)
    (hTimeout : hd.isTimeout = false) : ({ c with handlers := hs } : Client).At p := by
  obtain ⟨hConnecting, hDue⟩ := handlers_cons hHandlers
  rw [h.connecting, hConnect, Bool.toNat_false, Nat.add_zero] at hConnecting
  rw [h.due, hTimeout, Bool.toNat_false, Nat.add_zero] at hDue
  exact { h with connecting := hConnecting.symm, due := hDue.symm }

theorem At.takeConnect {p : Phase} (h : c.At p) {uri queryString : String} {hs : List Handler}
    (hHandlers : c.handlers = .connectImpl uri queryString :: hs) :
    p = .starting ∧ ({ c with handlers := hs } : Client).At .idle := by
  obtain ⟨hConnecting, hDue⟩ := handlers_cons hHandlers
  have hOne := h.connecting
  rw [hConnecting, Handler.isConnect, Bool.toNat_true] at hOne
  obtain rfl : p = .starting := Phase.eq_of_count hOne (Nat.succ_pos _)
  refine ⟨rfl, { h with
    connecting := Nat.succ.inj hOne, due := ?_, state := ?_, looping := .inl rfl, sid := ?_ }⟩
  · rw [h.due] at hDue
    exact hDue.symm
  · exact Phase.allows_idle h.state (by decide)
  · intro hp
    cases hp

theorem At.takeTimeout {p : Phase} (h : c.At p) {hs : List Handler}
    (hHandlers : c.handlers = .timeoutReconnect :: hs) :
    p = .due ∧ ({ c with handlers := hs } : Client).At .idle := by
  obtain ⟨hConnecting, hDue⟩ := handlers_cons hHandlers
  have hOne := h.due
  rw [hDue, Handler.isTimeout, Bool.toNat_true] at hOne
  obtain rfl : p = .due := Phase.eq_of_count hOne (Nat.succ_pos _)
  refine ⟨rfl, { h with
    connecting := ?_, due := Nat.succ.inj hOne, state := ?_, looping := .inl rfl, sid := ?_ }⟩
  · rw [h.connecting] at hConnecting
    exact hConnecting.symm
  · exact Phase.allows_idle h.state (by decide)
  · intro hp
    cases hp

theorem At.post {p : Phase} (h : c.At p) (hs : List Handler)
    (hConnect : ∀ hd ∈ hs, hd.isConnect = false) (hTimeout : ∀ hd ∈ hs, hd.isTimeout = false) :
    ({ c with handlers := c.handlers ++ hs } : Client).At p := by
  have hConnecting : hs.countP Handler.isConnect = 0 :=
    List.countP_eq_zero.2 fun hd h => by simp [hConnect hd h]
  have hDue : hs.countP Handler.isTimeout = 0 :=
    List.countP_eq_zero.2 fun hd h => by simp [hTimeout hd h]
  refine { h with connecting := ?_, due := ?_ }
  · have hOld := h.connecting
    unfold Client.connecting at hOld ⊢
    simp only [List.countP_append]
    omega
  · have hOld := h.due
    unfold Client.due at hOld ⊢
    simp only [List.countP_append]
    omega

theorem At.close {p : Phase} (h : c.At p) (payloads : List Payload) : (c.close payloads).At p := by
  have hSends := h.post (payloads.map .sendImpl) (List.forall_mem_map.2 fun _ _ => rfl)
    (List.forall_mem_map.2 fun _ _ => rfl)
  have hClose := hSends.post [.closeImpl CloseStatus.normal]
    (List.forall_mem_singleton.2 rfl) (List.forall_mem_singleton.2 rfl)
  exact { hClose with state := Phase.allows_closing p }

/-! Leaving a phase. -/

theorem At.answered {p : Phase} (h : c.At p) (hAttempts : 0 < c.attempts) :
    p = .attempting ∧ ({ c with attempts := c.attempts - 1 } : Client).At .idle := by
  obtain rfl : p = .attempting := Phase.eq_of_count h.attempts hAttempts
  refine ⟨rfl, { h with attempts := ?_, state := ?_, looping := .inl rfl, sid := ?_ }⟩
  · have hOne := h.attempts
    rw [Phase.count_self] at hOne
    simp only [hOne]
    rfl
  · exact Phase.allows_idle h.state (by decide)
  · intro hp
    cases hp

theorem At.timerEnds {p : Phase} (h : c.At p) (hTimer : c.reconnTimer = true) :
    p = .waiting ∧ ({ c with reconnTimer := false } : Client).At .idle := by
  obtain rfl : p = .waiting := Phase.eq_of_count h.timer (by rw [hTimer]; decide)
  refine ⟨rfl, { h with timer := rfl, state := ?_, looping := .inl rfl, sid := ?_ }⟩
  · exact Phase.allows_idle h.state (by decide)
  · intro hp
    cases hp

theorem At.connectionEnds {p : Phase} (h : c.At p) {i : Nat} {k : Connection}
    (hk : c.connections[i]? = some k) : p = .connected ∧
      ({ c with
        connections := c.connections.eraseIdx i
        conState := .closed
        con := false } : Client).At .idle := by
  obtain ⟨hi, -⟩ := List.getElem?_eq_some_iff.1 hk
  obtain rfl : p = .connected := Phase.eq_of_count h.connections (by omega)
  refine ⟨rfl, { h with
    connections := ?_, con := rfl, state := rfl, looping := .inl rfl, sid := ?_ }⟩
  · have hOne := h.connections
    rw [Phase.count_self] at hOne
    change (c.connections.eraseIdx i).length = 0
    rw [List.length_eraseIdx, if_pos hi, hOne]
  · intro hp
    cases hp

/-! Entering a phase. -/

theorem At.attempt (h : c.At .idle) (hState : c.conState ≠ .closed) (hLoop : c.looping = true) :
    ({ c with attempts := c.attempts + 1 } : Client).At .attempting := by
  refine { h with attempts := ?_, state := ?_, looping := .inr hLoop, sid := ?_ }
  · simp only [h.attempts]
    rfl
  · have hIdle := h.state
    cases hc : c.conState <;> simp_all [Phase.allows]
  · intro hp
    cases hp

theorem At.open (h : c.At .idle) (hLoop : c.looping = true) (k : Connection) :
    ({ c with
      connections := k :: c.connections
      conState := .opened
      con := true } : Client).At .connected := by
  refine { h with connections := ?_, con := rfl, state := rfl, looping := .inr hLoop, sid := ?_ }
  · change c.connections.length + 1 = 1
    rw [h.connections]
    rfl
  · intro hp
    cases hp

theorem At.expire (h : c.At .idle) (hState : Phase.due.allows c.conState = true)
    (hLoop : c.looping = true) :
    ({ c with handlers := c.handlers ++ [.timeoutReconnect] } : Client).At .due := by
  refine { h with
    connecting := ?_, due := ?_, state := hState, looping := .inr hLoop, sid := ?_ }
  · have hOld := h.connecting
    unfold Client.connecting at hOld ⊢
    simp only [List.countP_append, hOld]
    rfl
  · have hOld := h.due
    unfold Client.due at hOld ⊢
    simp only [List.countP_append, hOld]
    rfl
  · intro hp
    cases hp

theorem At.restart (h : c.At .idle) (uri queryString : String) :
    (c.restart uri queryString).At .starting := by
  refine { h with
    connecting := ?_, due := ?_, state := rfl, looping := .inr rfl, thread := fun _ => rfl
    sid := fun _ => rfl }
  · have hConnecting := h.connecting
    unfold Client.connecting at hConnecting ⊢
    simp only [Client.restart, Client.emit, List.countP_append, hConnecting]
    rfl
  · have hDue := h.due
    unfold Client.due at hDue ⊢
    simp only [Client.restart, Client.emit, List.countP_append, hDue]
    rfl

/-! ### Each step follows the phases -/

/-- A call of `connect` waits, or the client is being closed, or a pong is late. -/
def Interrupted (a : Action) (c c' : Client) : Prop :=
  c'.joining ≠ none ∨ c.conState = .closing ∨ a = .timeoutPong ∨
    ∃ code, .closeImpl code ∈ c.handlers

/-- From its phase the client goes on as the phases do. -/
def Follows (valid : String → Bool) (p : Phase) (interrupted : Prop) (c c' : Client) : Prop :=
  ∃ p' es, Phase.Next valid c.reconnection interrupted p c.reconnMade es p' c'.reconnMade ∧
    c'.effects = c.effects ++ es ∧ c'.At p'

variable {interrupted : Prop}

theorem At.stay {p : Phase} (h : c'.At p) (hMade : c'.reconnMade = c.reconnMade)
    (hEffects : c'.effects = c.effects) : Follows valid p interrupted c c' :=
  ⟨p, [], hMade ▸ .stay p _ (by simp), by rw [hEffects, List.append_nil], h⟩

/-- Without its timer, a client that waits for the next attempt is idle. -/
theorem At.stop {p : Phase} (h : c.At p) (hCause : p = .waiting → interrupted) :
    Follows valid p interrupted c { c with reconnTimer := false } := by
  cases hTimer : c.reconnTimer with
  | true =>
    obtain ⟨rfl, hIdle⟩ := h.timerEnds hTimer
    exact ⟨.idle, [], .cancel _ (hCause rfl), (List.append_nil _).symm, hIdle⟩
  | false =>
    refine At.stay { h with timer := ?_ } rfl rfl
    rw [← h.timer, hTimer]

theorem At.closeImpl {p : Phase} (h : c.At p) (hCause : p = .waiting → interrupted) (code : Nat) :
    Follows valid p interrupted c (c.closeImpl code) := by
  obtain ⟨p', es, hNext, hEffects, h'⟩ := h.stop hCause
  refine ⟨p', es, hNext, hEffects, { h' with connections := ?_ }⟩
  rw [← h'.connections]
  unfold Client.closeImpl
  dsimp only
  split
  · rw [List.length_modifyHead]
  · rfl

/-- What is sent says nothing about the connection. -/
theorem At.sends {p : Phase} (h : c.At p)
    (hSent : c' = c ∨ ∃ payload, c' = c.emit [.sent payload]) :
    Follows valid p interrupted c c' := by
  rcases hSent with rfl | ⟨payload, rfl⟩
  · exact h.stay rfl rfl
  · exact ⟨p, _, .stay p _ (List.forall_mem_singleton.2 rfl), rfl, h.emit _⟩

/-- The end of an attempt or of a connection, with the phase `p` before. -/
theorem At.reconnect {p : Phase} (hp : p = .attempting ∨ p = .connected) (h : c'.At .idle)
    (hState : c'.conState = .closed) (hLoop : c'.looping = true)
    (hReconnection : c'.reconnection = c.reconnection) (hMade : c'.reconnMade = c.reconnMade)
    (hEffects : c'.effects = c.effects ++ [.socketsDisconnect]) {last : Effect}
    (hLast : ¬c.reconnMade < c.reconnection.attempts → Phase.Next valid c.reconnection interrupted
      p c.reconnMade [.socketsDisconnect, last] .idle c.reconnMade) :
    Follows valid p interrupted c (c'.reconnect last) := by
  unfold Client.reconnect
  rw [hMade, hReconnection]
  split
  · rename_i hMore
    refine ⟨.waiting, _, .lose hp hMore, ?_, { h with
      timer := rfl, looping := .inr hLoop, state := ?_, sid := ?_ }⟩
    · rw [Client.emit, hEffects, List.append_assoc]
      rfl
    · change Phase.waiting.allows c'.conState = true
      rw [hState]
      rfl
    · intro hp
      cases hp
  · rename_i hMore
    refine ⟨.idle, [.socketsDisconnect, last], ?_, ?_, h.emit [last]⟩
    · change Phase.Next valid _ _ p _ _ .idle c'.reconnMade
      rw [hMade]
      exact hLast hMore
    · rw [Client.emit, hEffects, List.append_assoc]
      rfl

/-- A step follows the phases. -/
theorem At.step {p : Phase} (h : c.At p) (hMoves : Moves valid c a c') :
    Follows valid p (Interrupted a c c') c c' := by
  cases hMoves with
  | ignored hState =>
    refine h.stop fun hp => ?_
    have hAllows := h.state
    rcases hState with hState | hState <;> rw [hp, hState] at hAllows <;> cases hAllows
  | @joins uri queryString _ _ =>
    have hCause : Interrupted (.connect uri queryString) c { c with
        reconnTimer := false, joining := some (.connect uri queryString) } := .inl (by simp)
    obtain ⟨p', es, hNext, hEffects, h'⟩ := h.stop fun _ => hCause
    exact ⟨p', es, hNext, hEffects, { h' with }⟩
  | starts hThread =>
    have hLoop : c.looping = false := by
      cases hLooping : c.looping
      · rfl
      · rw [h.thread hLooping] at hThread
        cases hThread
    obtain rfl := h.idle_of_stopped hLoop
    have h' : ({ c with reconnTimer := false } : Client).At .idle := { h with timer := rfl }
    exact ⟨.starting, _, .connect _, rfl, h'.restart _ _⟩
  | @closes _ payloads =>
    exact ⟨p, _, .stay p _ (List.forall_mem_singleton.2 rfl), rfl, { h.close payloads with }⟩
  | sends payload =>
    exact (h.post [.sendImpl payload] (List.forall_mem_singleton.2 rfl)
      (List.forall_mem_singleton.2 rfl)).stay rfl rfl
  | sets _ => exact At.stay { h with } rfl rfl
  | joinedConnect hLoop _ =>
    obtain rfl := h.idle_of_stopped hLoop
    exact ⟨.starting, _, .connect _, rfl, h.restart _ _⟩
  | joinedClose hLoop _ =>
    exact At.stay { h with thread := fun hLooping => by simp [hLoop] at hLooping } rfl rfl
  | attempts hHandlers hValid =>
    obtain ⟨rfl, hIdle⟩ := h.takeConnect hHandlers
    have hState : c.conState ≠ .closed := fun hc => by
      have hAllows := h.state
      rw [hc] at hAllows
      cases hAllows
    rw [h.sid rfl]
    exact ⟨.attempting, _, .attempt _ _ hValid, rfl,
      { hIdle.attempt hState (h.isLooping (by decide)) with sid := fun hp => by cases hp }⟩
  | rejects hHandlers =>
    obtain ⟨rfl, hIdle⟩ := h.takeConnect hHandlers
    exact ⟨.idle, _, .reject _, rfl, { hIdle with }⟩
  | @closeHandler code hs hHandlers =>
    have hPosted : .closeImpl code ∈ c.handlers := by
      rw [hHandlers]
      exact List.mem_cons_self
    exact (h.take hHandlers rfl rfl).closeImpl (fun _ => .inr (.inr (.inr ⟨code, hPosted⟩))) code
  | reattempts hHandlers _ hValid =>
    obtain ⟨rfl, hIdle⟩ := h.takeTimeout hHandlers
    have hOpening : ({ c with handlers := _, conState := .opening } : Client).At .idle :=
      { hIdle with state := rfl }
    exact ⟨.attempting, _, .retry _ _ hValid, by rw [List.append_assoc]; rfl,
      { hOpening.attempt (by simp) (h.isLooping (by decide)) with sid := fun hp => by cases hp }⟩
  | rerejects hHandlers _ =>
    obtain ⟨rfl, hIdle⟩ := h.takeTimeout hHandlers
    exact ⟨.idle, _, .reject' _, by rw [List.append_assoc]; rfl,
      { hIdle with state := rfl, sid := fun hp => by cases hp }⟩
  | late hHandlers hState =>
    obtain ⟨rfl, hIdle⟩ := h.takeTimeout hHandlers
    have hClosing : c.conState = .closing := by
      have hAllows := h.state
      cases hc : c.conState <;> simp_all [Phase.allows]
    exact ⟨.idle, [], .late _ (.inr (.inl hClosing)), (List.append_nil _).symm, hIdle⟩
  | @sendHandler payload hs hHandlers =>
    obtain ⟨p', es, hNext, hEffects, h'⟩ := (h.take hHandlers rfl rfl).sends
      ((sendImpl_cases { c with handlers := hs } payload).imp id fun hSent => ⟨payload, hSent⟩)
    exact ⟨p', es, hNext, hEffects, h'⟩
  | sendHere payload =>
    exact h.sends ((c.sendImpl_cases payload).imp id fun hSent => ⟨payload, hSent⟩)
  | pings => exact h.sends (c.ping_cases.imp id fun hSent => ⟨.ping, hSent⟩)
  | expired hTimer =>
    obtain ⟨rfl, hIdle⟩ := h.timerEnds hTimer
    exact ⟨.due, [], .expire _, (List.append_nil _).symm,
      hIdle.expire (Phase.allows_due h.state) (h.isLooping (by decide))⟩
  | opened hAttempts =>
    obtain ⟨rfl, hIdle⟩ := h.answered hAttempts
    exact ⟨.connected, _, .answer _, rfl, { hIdle.open (h.isLooping (by decide)) .opened with }⟩
  | failed hAttempts =>
    obtain ⟨rfl, hIdle⟩ := h.answered hAttempts
    have hLost : ({ c with
        attempts := c.attempts - 1
        con := false
        conState := .closed
        effects := c.effects ++ [.socketsDisconnect] } : Client).At .idle :=
      { hIdle with con := rfl, state := rfl }
    exact At.reconnect (c := c) (.inl rfl) hLost rfl (h.isLooping (by decide)) rfl rfl rfl .giveUp
  | alters _ _ =>
    exact At.stay { h with connections := by rw [List.length_set]; exact h.connections } rfl rfl
  | ended hk _ =>
    obtain ⟨rfl, hIdle⟩ := h.connectionEnds hk
    unfold Client.onClose
    dsimp only
    split
    · exact ⟨.idle, _, .finish _, List.append_assoc .., { hIdle with }⟩
    · have hLost := hIdle.emit [.socketsDisconnect]
      exact At.reconnect (c := c) (.inr rfl) hLost rfl (h.isLooping (by decide)) rfl rfl rfl .drop
  | handshake sid hHears =>
    obtain rfl := h.connected_of_hears hHears
    exact At.stay { h with sid := fun hs => by cases hs } rfl rfl
  | aborts hAction =>
    refine h.closeImpl (fun hp => ?_) _
    rcases hAction with rfl | ⟨-, hHears⟩
    · exact .inr (.inr (.inl rfl))
    · obtain rfl := h.connected_of_hears hHears
      cases hp
  | runEnds hHandlers hAttempts hConn hTimer =>
    obtain rfl := h.idle_of_quiet hHandlers hAttempts hConn hTimer
    exact At.stay { h with
      looping := .inl rfl, thread := fun hLooping => by cases hLooping } rfl rfl

theorem follows_of_step {p : Phase} (h : c.At p) (hStep : step valid c a = some c') :
    Follows valid p (Interrupted a c c') c c' :=
  h.step (step_moves hStep)

/-- Each attempt is for a URI of which websocketpp makes a connection, and has no session. -/
def Anew (valid : String → Bool) (es : List Effect) : Prop :=
  ∀ uri sid queryString, .attempt uri sid queryString ∈ es → valid uri = true ∧ sid = ""

theorem Anew.append {es es' : List Effect} (h : Anew valid es) (h' : Anew valid es') :
    Anew valid (es ++ es') := fun uri sid queryString hMem =>
  (List.mem_append.1 hMem).elim (h uri sid queryString) (h' uri sid queryString)

theorem anew_of_next {r : Reconnection} {p p' : Phase} {made made' : UInt32}
    {es : List Effect} (h : Phase.Next valid r interrupted p made es p' made') :
    Anew valid es := by
  intro uri sid queryString hMem
  cases h with
  | stay p made hAside => cases hAside _ hMem
  | attempt _ _ hValid =>
    rw [List.mem_singleton, Effect.attempt.injEq] at hMem
    obtain ⟨rfl, rfl, -⟩ := hMem
    exact ⟨hValid, rfl⟩
  | retry _ _ hValid =>
    simp only [List.mem_cons, List.not_mem_nil, or_false, Effect.attempt.injEq, reduceCtorEq,
      false_or] at hMem
    obtain ⟨rfl, rfl, -⟩ := hMem
    exact ⟨hValid, rfl⟩
  | _ => simp at hMem

theorem run_phase {r : Reconnection} {as : List Action}
    (hRun : run valid (create r) as = some c) : ∃ p, c.At p ∧ Anew valid c.effects := by
  refine Concurrent.run_invariant_of_mem (P := fun c => ∃ p, c.At p ∧ Anew valid c.effects) ?_
    (fun _ _ => trivial) ⟨.idle, at_create r, by simp [Anew, create]⟩ hRun
  rintro c a c' ⟨p, hAt, hAnew⟩ - hStep
  obtain ⟨p', es, hNext, hEffects, hAt'⟩ := follows_of_step hAt hStep
  exact ⟨p', hAt', hEffects ▸ hAnew.append (anew_of_next hNext)⟩

/-- In every run the client is in one phase at a time: of the posted `connect_impl`s, the attempts,
the connections, the running timer and its handlers there is at most one, `m_con_state` agrees with
it, and `connect_impl` never takes its branch for a session that goes on. -/
theorem one_prospect {r : Reconnection} {as : List Action}
    (hRun : run valid (create r) as = some c) :
    (∃ p, c.At p) ∧
      c.connecting + c.attempts + c.connections.length + c.reconnTimer.toNat + c.due ≤ 1 ∧
      ∀ uri sid queryString, .attempt uri sid queryString ∈ c.effects →
        valid uri = true ∧ sid = "" := by
  obtain ⟨p, hAt, hAnew⟩ := run_phase hRun
  exact ⟨⟨p, hAt⟩, hAt.single, hAnew⟩

/-- A connection is lost, and the client attempts to connect again. -/
theorem one_prospect_lost : ∃ c : Client,
    run (fun _ => true) (create .initial) [.connect "ws://localhost:8080" "", .handler, .opened,
      .terminated 0 true, .ended 0, .expired, .handler] = some c ∧
    (∃ p, c.At p) ∧
      c.connecting + c.attempts + c.connections.length + c.reconnTimer.toNat + c.due ≤ 1 ∧
      ∀ uri sid queryString, .attempt uri sid queryString ∈ c.effects → true = true ∧ sid = "" :=
  have hRun : run (fun _ => true) (create .initial) [.connect "ws://localhost:8080" "", .handler,
      .opened, .terminated 0 true, .ended 0, .expired, .handler] = some _ := rfl
  ⟨_, hRun, one_prospect hRun⟩

end Client

end Sio
