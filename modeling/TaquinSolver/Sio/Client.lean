import TaquinSolver.Floats.Rounding
import TaquinSolver.Sio.Connection

/-! The connection of a client: `client_impl` with the thread that runs its handlers, the thread of
the user that calls it, and websocketpp, which answers an attempt by `on_open` or `on_fail` and ends
a connection by `on_close`.  A step is one call or one handler.  What is dispatched on the thread of
the network runs at once; what another thread dispatches waits for that thread.  The timers of the
pings are left out, so `ping` and `timeout_pong` can run at any time.  The listeners call neither
`connect` nor `close`. -/

namespace Sio

open Java (Text)

/-! ### Settings -/

/-- `m_reconn_attempts`, `m_reconn_delay` and `m_reconn_delay_max`. -/
structure Reconnection where
  attempts : UInt32
  delay : UInt32
  delayMax : UInt32
  le : delay ≤ delayMax

namespace Reconnection

def initial : Reconnection := ⟨0xFFFFFFFF, 5000, 25000, by decide⟩

def setReconnectAttempts (r : Reconnection) (attempts : UInt32) : Reconnection :=
  { r with attempts := attempts }

def setReconnectDelay (r : Reconnection) (millis : UInt32) : Reconnection :=
  { r with
    delay := millis
    delayMax := if r.delayMax < millis then millis else r.delayMax
    le := by
      split
      · exact UInt32.le_refl millis
      · exact UInt32.not_lt.1 ‹_› }

def setReconnectDelayMax (r : Reconnection) (millis : UInt32) : Reconnection :=
  { r with
    delayMax := millis
    delay := if r.delay > millis then millis else r.delay
    le := by
      split
      · exact UInt32.le_refl millis
      · exact UInt32.not_lt.1 ‹_› }

/-- `next_delay`, with its powers and products in doubles: a power of 1.5 is exact up to the 32nd,
and a product is rounded to 53 bits. -/
def nextDelay (r : Reconnection) (reconnMade : UInt32) : UInt32 :=
  let made := min reconnMade.toNat 32
  UInt32.ofNat (min (Floats.round 53 (r.delay.toNat * 3 ^ made)) (r.delayMax.toNat * 2 ^ made) /
    2 ^ made)

end Reconnection

/-! ### The client -/

/-- `con_state`. -/
inductive ConState
  | opening
  | opened
  | closing
  | closed
deriving DecidableEq

/-- `client::close_reason`. -/
inductive CloseReason
  | normal
  | drop
deriving DecidableEq

/-- A handler that waits for the thread of the network. -/
inductive Handler
  | connectImpl (uri queryString : String)
  | closeImpl (code : Nat)
  | timeoutReconnect
  | sendImpl (payload : Payload)
deriving DecidableEq

/-- What the client does to the outside. -/
inductive Effect
  /-- `connect` starts the thread of the network. -/
  | runLoop
  | attempt (uri sid queryString : String)
  | sent (payload : Payload)
  | openListener
  | failListener
  | reconnectListener (reconnMade delay : UInt32)
  | reconnectingListener
  | closeListener (reason : CloseReason)
  /-- `sockets_invoke_void`, with `on_open`, `on_disconnect` or `close`. -/
  | socketsOpen
  | socketsDisconnect
  | socketsClose
deriving DecidableEq

/-- A call that waits in `m_network_thread->join()`. -/
inductive Joining
  | connect (uri queryString : String)
  | syncClose
deriving DecidableEq

structure Client where
  conState : ConState
  /-- `m_con` is set, to the connection opened last. -/
  con : Bool
  sid : String
  baseUrl : String
  queryString : String
  reconnection : Reconnection
  reconnMade : UInt32
  /-- `m_reconn_timer` runs. -/
  reconnTimer : Bool
  networkThread : Bool
  /-- The thread of the network is in `m_client.run()`. -/
  looping : Bool
  handlers : List Handler
  /-- The attempts that websocketpp has not answered. -/
  attempts : Nat
  /-- The connections that have not ended, the last one first. -/
  connections : List Connection
  joining : Option Joining
  effects : List Effect

inductive Action
  | connect (uri queryString : String)
  /-- `close`, with what the connected sockets send from their own `close`. -/
  | close (payloads : List Payload)
  | syncClose (payloads : List Payload)
  | send (payload : Payload)
  | setReconnectAttempts (attempts : UInt32)
  | setReconnectDelay (millis : UInt32)
  | setReconnectDelayMax (millis : UInt32)
  /-- The thread of the network has ended, and the call that waits for it goes on. -/
  | joined
  /-- The thread of the network runs the next handler. -/
  | handler
  | sendHere (payload : Payload)
  | ping
  | expired
  | opened
  | failed
  /-- A close frame of the server, with its payload. -/
  | closeFrame (i : Nat) (payload : Text)
  /-- A frame of the server that cannot be read. -/
  | unreadable (i : Nat) (code : Nat)
  | terminated (i : Nat) (error : Bool)
  | ended (i : Nat)
  | handshake (sid : Option String)
  | frameClose
  | timeoutPong
  | runEnds

namespace Client

/-- The constructor. -/
def create (r : Reconnection) : Client where
  conState := .closed
  con := false
  sid := ""
  baseUrl := ""
  queryString := ""
  reconnection := r
  reconnMade := 0
  reconnTimer := false
  networkThread := false
  looping := false
  handlers := []
  attempts := 0
  connections := []
  joining := none
  effects := []

def emit (c : Client) (es : List Effect) : Client := { c with effects := c.effects ++ es }

/-- `connect_impl`.  A URI of which websocketpp makes no connection is not `valid`. -/
def connectImpl (valid : String → Bool) (c : Client) (uri queryString : String) : Client :=
  if valid uri then
    { c with attempts := c.attempts + 1 }.emit [.attempt uri c.sid queryString]
  else c.emit [.failListener]

def closeImpl (c : Client) (code : Nat) : Client :=
  { c with
    reconnTimer := false
    connections := if c.con then c.connections.modifyHead (·.close code) else c.connections }

/-- `m_client.send` on `m_con`, whose errors are only printed or not looked at. -/
def put (c : Client) (payload : Payload) : Client :=
  match c.connections with
  | k :: _ => if c.con && k.takes payload then c.emit [.sent payload] else c
  | [] => c

def sendImpl (c : Client) (payload : Payload) : Client :=
  if c.conState = .opened then c.put payload else c

/-- `ping`, which does not look at `m_con_state`. -/
def ping (c : Client) : Client := if c.con then c.put .ping else c

/-- A message reaches `on_message` while its connection is open. -/
def hears (c : Client) : Bool := c.connections.any (·.state = .opened)

def timeoutReconnect (valid : String → Bool) (c : Client) : Client :=
  if c.conState = .closed then
    connectImpl valid
      ({ c with conState := .opening, reconnMade := c.reconnMade + 1, sid := "" }.emit
        [.reconnectingListener])
      c.baseUrl c.queryString
  else c

/-- The timer of the next attempt, or the last word to a listener. -/
def reconnect (c : Client) (last : Effect) : Client :=
  if c.reconnMade < c.reconnection.attempts then
    { c with reconnTimer := true }.emit
      [.reconnectListener c.reconnMade (c.reconnection.nextDelay c.reconnMade)]
  else c.emit [last]

def onFail (c : Client) : Client :=
  ({ c with con := false, conState := .closed }.emit [.socketsDisconnect]).reconnect .failListener

def onOpen (c : Client) : Client :=
  { c with conState := .opened, con := true, reconnMade := 0 }.emit [.socketsOpen, .openListener]

def onClose (c : Client) (code : Nat) : Client :=
  let c := { c with conState := .closed, con := false }.emit [.socketsDisconnect]
  if code = CloseStatus.normal then c.emit [.closeListener .normal]
  else c.reconnect (.closeListener .drop)

/-- `connect`, after the thread of the network has ended. -/
def restart (c : Client) (uri queryString : String) : Client :=
  { c with
    conState := .opening
    baseUrl := uri
    queryString := queryString
    reconnMade := 0
    sid := ""
    handlers := c.handlers ++ [Handler.connectImpl uri queryString]
    networkThread := true
    looping := true
    joining := none }.emit [.runLoop]

def connect (c : Client) (uri queryString : String) : Client :=
  let c := { c with reconnTimer := false }
  if c.networkThread then
    match c.conState with
    | .closing | .closed => { c with joining := some (.connect uri queryString) }
    | .opening | .opened => c
  else c.restart uri queryString

def close (c : Client) (payloads : List Payload) : Client :=
  { c with
    conState := .closing
    handlers := c.handlers ++ payloads.map Handler.sendImpl ++
      [Handler.closeImpl CloseStatus.normal] }.emit [.socketsClose]

def syncClose (c : Client) (payloads : List Payload) : Client :=
  let c := c.close payloads
  if c.networkThread then { c with joining := some .syncClose } else c

def runHandler (valid : String → Bool) (c : Client) : Handler → Client
  | .connectImpl uri queryString => c.connectImpl valid uri queryString
  | .closeImpl code => c.closeImpl code
  | .timeoutReconnect => c.timeoutReconnect valid
  | .sendImpl payload => c.sendImpl payload

/-- A call by the thread of the user, which waits while it joins the thread of the network. -/
def call (c : Client) : Action → Option Client
  | .connect uri queryString => some (c.connect uri queryString)
  | .close payloads => some (c.close payloads)
  | .syncClose payloads => some (c.syncClose payloads)
  | .send payload => some { c with handlers := c.handlers ++ [Handler.sendImpl payload] }
  | .setReconnectAttempts attempts =>
    some { c with reconnection := c.reconnection.setReconnectAttempts attempts }
  | .setReconnectDelay millis =>
    some { c with reconnection := c.reconnection.setReconnectDelay millis }
  | .setReconnectDelayMax millis =>
    some { c with reconnection := c.reconnection.setReconnectDelayMax millis }
  | _ => none

/-- A handler on the thread of the network. -/
def loop (valid : String → Bool) (c : Client) : Action → Option Client
  | .handler =>
    match c.handlers with
    | h :: hs => some ({ c with handlers := hs }.runHandler valid h)
    | [] => none
  | .sendHere payload => some (c.sendImpl payload)
  | .ping => some c.ping
  | .expired =>
    if c.reconnTimer then
      some { c with reconnTimer := false, handlers := c.handlers ++ [Handler.timeoutReconnect] }
    else none
  | .opened =>
    if 0 < c.attempts then
      some { c with
        attempts := c.attempts - 1, connections := .opened :: c.connections }.onOpen
    else none
  | .failed =>
    if 0 < c.attempts then some { c with attempts := c.attempts - 1 }.onFail else none
  | .closeFrame i payload => c.connections[i]?.map fun k =>
    { c with connections := c.connections.set i (k.closeFrame payload) }
  | .unreadable i code => c.connections[i]?.map fun k =>
    { c with connections := c.connections.set i (k.unreadable code) }
  | .terminated i error =>
    match c.connections[i]? with
    | some k =>
      -- an open connection does not end without an error
      if error || k.state != .opened then
        some { c with connections := c.connections.set i (k.terminate error) }
      else none
    | none => none
  | .ended i =>
    match c.connections[i]? with
    | some k =>
      if k.state = .closed then
        some ({ c with connections := c.connections.eraseIdx i }.onClose k.localCloseCode)
      else none
    | none => none
  | .handshake sid =>
    if c.hears then
      match sid with
      | some sid => some { c with sid := sid }
      | none => some (c.closeImpl CloseStatus.policyViolation)
    else none
  | .frameClose => if c.hears then some (c.closeImpl CloseStatus.abnormalClose) else none
  | .timeoutPong => some (c.closeImpl CloseStatus.policyViolation)
  | .runEnds =>
    match c.handlers, c.connections with
    | [], [] =>
      if c.attempts = 0 ∧ c.reconnTimer = false then some { c with looping := false } else none
    | _, _ => none
  | _ => none

/-- The call that waits for the end of the thread goes on. -/
def join (c : Client) : Option Client :=
  match c.joining with
  | some (.connect uri queryString) => some (c.restart uri queryString)
  | some .syncClose => some { c with networkThread := false, joining := none }
  | none => none

def step (valid : String → Bool) (c : Client) (a : Action) : Option Client :=
  match a with
  | .connect .. | .close .. | .syncClose .. | .send .. | .setReconnectAttempts _ |
    .setReconnectDelay _ | .setReconnectDelayMax _ =>
    if c.joining = none then c.call a else none
  | .joined => if c.looping then none else c.join
  | _ => if c.looping then c.loop valid a else none

def run (valid : String → Bool) (c : Client) (as : List Action) : Option Client :=
  as.foldlM (step valid) c

end Client

end Sio
