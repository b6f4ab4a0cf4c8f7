import TaquinSolver.Sio.Packet

/-! The class `socket::impl`: the packets that wait for a connection, the callbacks that wait for an
acknowledgement, and the listeners of events.  What a callback of the program does to its socket is
a part of each input, so that nothing is assumed of the callbacks.  The handlers of the timer are
inputs too, and can come at any time. -/

namespace Sio

open Java (Text)

/-- What a listener gets. -/
structure Event (δ : Type) where
  nsp : Text
  name : Text
  messages : List (Message δ)
  needAck : Bool

/-- What the program asks of a socket, with callbacks `A` for acknowledgements and `L` for
events. -/
inductive Request (δ A L : Type)
  | emit (name : Text) (msglist : List (Message δ)) (ack : Option A)
  | on (name : Text) (func : L)
  | off (name : Text)
  | offAll
  | onError (func : L)
  | offError
  | close

/-- What a socket calls: its own `send_packet`, its client, and the callbacks. -/
inductive Call (δ A L : Type)
  | sendPacket (p : Packet δ)
  | send (p : Packet δ)
  | sendConnect (p : Packet δ)
  | discard (ps : List (Packet δ))
  | registerAck (id : ℕ) (ack : A)
  | ack (id : ℕ) (ack : A) (messages : List (Message δ))
  | listener (func : L) (event : Event δ)
  | errorListener (func : L) (message : Message δ)
  | socketOpened (nsp : Text)
  | socketClosed (nsp : Text)
  | removeSocket (nsp : Text)

/-- A socket, with the counter of identifiers that all sockets share. -/
structure Socket (δ A L : Type) where
  client : Bool
  connected : Bool
  nsp : Text
  acks : List (ℕ × A)
  eventBinding : List (Text × L)
  errorListener : Option L
  packetQueue : List (Packet δ)
  globalEventId : ℕ

/-- What can happen to a socket.  With a packet comes what the callbacks that it leads to do, and
the acknowledgement that the listener of an event puts. -/
inductive Input (δ A L : Type)
  | request (r : Request δ A L)
  | otherEmit
  | opened
  | disconnected
  | closed
  | timeoutConnection (ec : Bool)
  | packet (p : Packet δ) (does : List (Request δ A L)) (ackMessage : List (Message δ))

variable {δ A L : Type}

namespace Socket

/-- A socket before anything happens to it. -/
def new (nsp : Text) (globalEventId : ℕ) : Socket δ A L :=
  ⟨true, false, nsp, [], [], none, [], globalEventId⟩

/-- `send_packet`. -/
def sendPacket (s : Socket δ A L) (p : Packet δ) : Socket δ A L × List (Call δ A L) :=
  if s.client then
    if s.connected then
      ({ s with packetQueue := [] }, .sendPacket p :: (s.packetQueue ++ [p]).map .send)
    else ({ s with packetQueue := s.packetQueue ++ [p] }, [.sendPacket p])
  else (s, [])

/-- `emit`.  An identifier is taken only for an acknowledgement. -/
def emit (s : Socket δ A L) (name : Text) (msglist : List (Message δ)) (ack : Option A) :
    Socket δ A L × List (Call δ A L) :=
  if s.client then
    let msg := Message.array (.string name :: msglist)
    match ack with
    | some ack =>
      let id := s.globalEventId
      let s := { s with globalEventId := (id + 1) % 2 ^ 32, acks := mapSet id ack s.acks }
      let r := s.sendPacket (.ofMessage s.nsp msg (toInt id) false)
      (r.1, .registerAck id ack :: r.2)
    | none => s.sendPacket (.ofMessage s.nsp msg (-1) false)
  else (s, [])

/-- `close`, which also starts a timer with the handler `on_close`. -/
def close (s : Socket δ A L) : Socket δ A L × List (Call δ A L) :=
  if s.client ∧ s.connected then s.sendPacket (.ofType PacketType.disconnect s.nsp .absent)
  else (s, [])

def request (s : Socket δ A L) : Request δ A L → Socket δ A L × List (Call δ A L)
  | .emit name msglist ack => s.emit name msglist ack
  | .on name func => ({ s with eventBinding := mapSet name func s.eventBinding }, [])
  | .off name => ({ s with eventBinding := s.eventBinding.filter (·.1 ≠ name) }, [])
  | .offAll => ({ s with eventBinding := [] }, [])
  | .onError func => ({ s with errorListener := some func }, [])
  | .offError => ({ s with errorListener := none }, [])
  | .close => s.close

/-- What a callback does to its socket, one request after another. -/
def requests (s : Socket δ A L) : List (Request δ A L) → Socket δ A L × List (Call δ A L)
  | [] => (s, [])
  | r :: rs =>
    let one := s.request r
    let rest := one.1.requests rs
    (rest.1, one.2 ++ rest.2)

/-- `send_connect`, which also starts a timer with the handler `timeout_connection`. -/
def sendConnect (s : Socket δ A L) : Socket δ A L × List (Call δ A L) :=
  if s.client ∧ s.nsp ≠ ['/'] then
    (s, [.sendConnect (.ofType PacketType.connect s.nsp .absent)])
  else (s, [])

/-- The constructor, which joins the namespace when the client is open. -/
def create (nsp : Text) (globalEventId : ℕ) (opened : Bool) : Socket δ A L × List (Call δ A L) :=
  if opened then (new nsp globalEventId).sendConnect else (new nsp globalEventId, [])

/-- `on_connected`.  The client's listener is called before the queue is sent. -/
def onConnected (s : Socket δ A L) (does : List (Request δ A L)) :
    Socket δ A L × List (Call δ A L) :=
  if s.connected then (s, [])
  else
    let r := { s with connected := true }.requests does
    ({ r.1 with packetQueue := [] },
      .socketOpened s.nsp :: (r.2 ++ r.1.packetQueue.map .send))

def onClose (s : Socket δ A L) : Socket δ A L × List (Call δ A L) :=
  if s.client then
    ({ s with client := false, connected := false, packetQueue := [] },
      [.discard s.packetQueue, .socketClosed s.nsp, .removeSocket s.nsp])
  else (s, [])

def onDisconnect (s : Socket δ A L) : Socket δ A L × List (Call δ A L) :=
  if s.client ∧ s.connected then
    ({ s with connected := false, packetQueue := [] }, [.discard s.packetQueue])
  else (s, [])

/-- `ack`. -/
def ack (s : Socket δ A L) (msgId : ℤ) (ackMessage : List (Message δ)) :
    Socket δ A L × List (Call δ A L) :=
  s.sendPacket (.ofMessage s.nsp (.array ackMessage) msgId true)

/-- `on_socketio_event`.  The acknowledgement is sent without a listener too, and then it is
empty. -/
def onSocketioEvent (s : Socket δ A L) (msgId : ℤ) (name : Text) (messages : List (Message δ))
    (does : List (Request δ A L)) (ackMessage : List (Message δ)) :
    Socket δ A L × List (Call δ A L) :=
  let needAck := decide (0 ≤ msgId)
  match s.eventBinding.lookup name with
  | some func =>
    let r := s.requests does
    let answer := if needAck then r.1.ack msgId ackMessage else (r.1, [])
    (answer.1, .listener func ⟨s.nsp, name, messages, needAck⟩ :: (r.2 ++ answer.2))
  | none => if needAck then s.ack msgId [] else (s, [])

/-- `on_socketio_ack`.  The callback is forgotten before it is called. -/
def onSocketioAck (s : Socket δ A L) (msgId : ℤ) (messages : List (Message δ))
    (does : List (Request δ A L)) : Socket δ A L × List (Call δ A L) :=
  let id := (msgId % 2 ^ 32).toNat
  match s.acks.lookup id with
  | some ack =>
    let r := { s with acks := s.acks.filter (·.1 ≠ id) }.requests does
    (r.1, .ack id ack messages :: r.2)
  | none => (s, [])

def onSocketioError (s : Socket δ A L) (message : Message δ) (does : List (Request δ A L)) :
    Socket δ A L × List (Call δ A L) :=
  match s.errorListener with
  | some func =>
    let r := s.requests does
    (r.1, .errorListener func message :: r.2)
  | none => (s, [])

/-- The name and the messages of an event.  `message::list` leaves null pointers out. -/
def eventOf : Message δ → Result (Option (Text × List (Message δ)))
  | .absent => .error .nullPointer
  | .array (.absent :: _) => .error .nullPointer
  | .array (.string name :: l) => .ok (some (name, l.filter fun msg => !msg.isAbsent))
  | _ => .ok none

/-- `on_message_packet`. -/
def onMessagePacket (s : Socket δ A L) (p : Packet δ) (does : List (Request δ A L))
    (ackMessage : List (Message δ)) : Result (Socket δ A L × List (Call δ A L)) :=
  if s.client = false ∨ p.nsp ≠ s.nsp then .ok (s, [])
  else if PacketType.IsUndetermined p.type then .error .assertion
  else if p.type = PacketType.connect then .ok (s.onConnected does)
  else if p.type = PacketType.disconnect then .ok s.onClose
  else if p.type = PacketType.event ∨ p.type = PacketType.binaryEvent then do
    match ← eventOf p.message with
    | some (name, messages) => return s.onSocketioEvent p.packId name messages does ackMessage
    | none => return (s, [])
  else if p.type = PacketType.ack ∨ p.type = PacketType.binaryAck then
    match p.message with
    | .absent => .error .nullPointer
    | .array l => .ok (s.onSocketioAck p.packId l does)
    | msg => .ok (s.onSocketioAck p.packId [msg] does)
  else if p.type = PacketType.error then .ok (s.onSocketioError p.message does)
  else .ok (s, [])

def step (s : Socket δ A L) : Input δ A L → Result (Socket δ A L × List (Call δ A L))
  | .request r => .ok (s.request r)
  | .otherEmit => .ok ({ s with globalEventId := (s.globalEventId + 1) % 2 ^ 32 }, [])
  | .opened => .ok s.sendConnect
  | .disconnected => .ok s.onDisconnect
  | .closed => .ok s.onClose
  | .timeoutConnection ec => .ok (if s.client ∧ ec = false then s.onClose else (s, []))
  | .packet p does ackMessage => s.onMessagePacket p does ackMessage

/-- A run, and what the socket calls in it. -/
def run (s : Socket δ A L) : List (Input δ A L) → Result (Socket δ A L × List (Call δ A L))
  | [] => .ok (s, [])
  | i :: is => do
    let (s, calls) ← s.step i
    let (s, calls') ← s.run is
    return (s, calls ++ calls')

end Socket

end Sio
