import TaquinSolver.Sio.Message

/-! Packets, their payloads, and the manager that reads packets from the payloads that arrive.  A
packet is one text, and a payload for each byte string of its message.  A failed run leaves no
state: nothing catches the exceptions and the assertions here. -/

namespace Sio

open Java (Text intToText)

/-- What the packets take from other libraries: the texts of documents and `boost::lexical_cast`. -/
structure Library (δ : Type) extends Json.Format δ where
  castUnsigned : Text → Option ℕ
  castInt : Text → Option ℤ
  castUnsigned_digits : ∀ n < 2 ^ 32, castUnsigned (Nat.toDigits 10 n) = some n
  castInt_digits : ∀ n < 2 ^ 31, castInt (Nat.toDigits 10 n) = some (n : ℤ)

/-- The value of a text of digits, below a limit. -/
def castDigits (limit : ℕ) (t : Text) : Option ℕ :=
  if t ≠ [] ∧ t.all Char.isDigit = true ∧ Nat.ofDigitChars 10 t 0 < limit then
    some (Nat.ofDigitChars 10 t 0)
  else none

theorem castDigits_toDigits {n limit : ℕ} (hn : n < limit) :
    castDigits limit (Nat.toDigits 10 n) = some n := by
  have hDigits : (Nat.toDigits 10 n).all Char.isDigit = true :=
    List.all_eq_true.2 fun c hc => Nat.isDigit_of_mem_toDigits (by decide) (by decide) hc
  rw [castDigits, Nat.ofDigitChars_ten_toDigits, if_pos ⟨Nat.toDigits_ne_nil, hDigits, hn⟩]

theorem head_toDigits {n : ℕ} {c : Char} {t : Text} (h : Nat.toDigits 10 n = c :: t) :
    c.isDigit = true :=
  Nat.isDigit_of_mem_toDigits (b := 10) (n := n) (by decide) (by decide) (by simp [h])

/-- A sign can stand before the digits, and a negative number is taken modulo `2 ^ 32`. -/
def castUnsigned : Text → Option ℕ
  | '+' :: t => castDigits (2 ^ 32) t
  | '-' :: t => (castDigits (2 ^ 32) t).map fun n => (2 ^ 32 - n) % 2 ^ 32
  | t => castDigits (2 ^ 32) t

def castInt : Text → Option ℤ
  | '+' :: t => (castDigits (2 ^ 31) t).map Int.ofNat
  | '-' :: t => (castDigits (2 ^ 31 + 1) t).map fun n => -n
  | t => (castDigits (2 ^ 31) t).map Int.ofNat

theorem castUnsigned_digits (n : ℕ) (hn : n < 2 ^ 32) :
    castUnsigned (Nat.toDigits 10 n) = some n := by
  unfold castUnsigned
  split
  · exact absurd (head_toDigits ‹_›) (by decide)
  · exact absurd (head_toDigits ‹_›) (by decide)
  · exact castDigits_toDigits hn

theorem castInt_digits (n : ℕ) (hn : n < 2 ^ 31) : castInt (Nat.toDigits 10 n) = some (n : ℤ) := by
  unfold castInt
  split
  · exact absurd (head_toDigits ‹_›) (by decide)
  · exact absurd (head_toDigits ‹_›) (by decide)
  · rw [castDigits_toDigits hn]
    rfl

/-- Compact texts, and the casts of decimal texts. -/
def compactLibrary : Library Empty where
  toFormat := Json.compact
  castUnsigned := castUnsigned
  castInt := castInt
  castUnsigned_digits := castUnsigned_digits
  castInt_digits := castInt_digits

namespace FrameType

def frameOpen : ℤ := 0

def close : ℤ := 1

def ping : ℤ := 2

def pong : ℤ := 3

def message : ℤ := 4

end FrameType

namespace PacketType

def connect : ℤ := 0

def disconnect : ℤ := 1

def event : ℤ := 2

def ack : ℤ := 3

def error : ℤ := 4

def binaryEvent : ℤ := 5

def binaryAck : ℤ := 6

/-- `type_undetermined`, a bit of its own. -/
def undetermined : ℤ := 0x10

/-- The bit of `type_undetermined` is set. -/
def IsUndetermined (type : ℤ) : Prop := type / undetermined % 2 = 1

instance (type : ℤ) : Decidable (IsUndetermined type) := by
  unfold IsUndetermined
  infer_instance

/-- The type of an event or an acknowledgement with byte strings. -/
def IsBinary (type : ℤ) : Prop := type = binaryEvent ∨ type = binaryAck

instance (type : ℤ) : Decidable (IsBinary type) := by
  unfold IsBinary
  infer_instance

/-- `type & ~type_undetermined`. -/
def determined (type : ℤ) : ℤ := if IsUndetermined type then type - undetermined else type

end PacketType

structure Packet (δ : Type) where
  frame : ℤ
  type : ℤ
  nsp : Text
  packId : ℤ
  message : Message δ
  pendingBuffers : ℕ
  buffers : List Text

variable {δ : Type}

/-- The pointer is null. -/
def Message.isAbsent : Message δ → Bool
  | .absent => true
  | .null | .bool _ | .int _ | .double _ | .string _ | .binary _ | .array _ | .object _ => false

/-- The number of a byte, which is signed. -/
def charValue (c : Char) : ℤ := if c.toNat < 128 then c.toNat else c.toNat - 256

/-- The number of a character, as an offset from `'0'`.  There is a null character at the end of a
text. -/
def offset (payload : Text) (pos : ℕ) : ℤ := charValue (payload.getD pos (Char.ofNat 0)) - 48

/-- `find_first_of`: the first position from `pos` on of a character of `set`. -/
def findFirstOf (set : List Char) (payload : Text) (pos : ℕ) : Option ℕ :=
  ((payload.drop pos).findIdx? (· ∈ set)).map (· + pos)

/-- `substr(first, last - first)`.  The difference wraps around when `last` is before `first`, and
then the text goes on to its end, as when there is no `last`. -/
def substr (payload : Text) (first : ℕ) (last : Option ℕ) : Text :=
  match last with
  | some last =>
    if first ≤ last then (payload.drop first).take (last - first) else payload.drop first
  | none => payload.drop first

/-- The document of a text up to a null character; `null` for a text that is none. -/
def parseDocument (lib : Library δ) (text : Text) : Json.Value δ :=
  (lib.parse (text.takeWhile (· ≠ Char.ofNat 0))).getD .null

namespace Packet

/-- An event or an acknowledgement.  The source asserts that an acknowledgement has an identifier:
it is only called with one. -/
def ofMessage (nsp : Text) (msg : Message δ) (packId : ℤ) (isAck : Bool) : Packet δ :=
  ⟨FrameType.message, (if isAck then PacketType.ack else PacketType.event) +
    PacketType.undetermined, nsp, packId, msg, 0, []⟩

def ofFrame (frame : ℤ) : Packet δ := ⟨frame, PacketType.undetermined, [], -1, .absent, 0, []⟩

def ofType (type : ℤ) (nsp : Text) (msg : Message δ) : Packet δ :=
  ⟨FrameType.message, type, nsp, -1, msg, 0, []⟩

/-- A packet to parse into.  The source leaves the frame unset. -/
def new : Packet δ := ⟨0, PacketType.undetermined, [], -1, .absent, 0, []⟩

def isBinaryMessage (payload : Text) : Bool := payload.head? = some (Char.ofNat 4)

def isTextMessage (payload : Text) : Bool := payload.head? = some '4'

/-- The document of a text, or the text itself while payloads of byte strings are to come. -/
def putDocument (lib : Library δ) (p : Packet δ) (text : Text) : Result (Packet δ × Bool) :=
  if p.frame = FrameType.message ∧ PacketType.IsBinary p.type then
    .ok ({ p with buffers := [text] }, true)
  else do return ({ p with message := ← fromJson (parseDocument lib text) [] }, false)

/-- The end of `parse`: an identifier between `pos` and `jsonPos`, and a document. -/
def parseMessage (lib : Library δ) (p : Packet δ) (payload : Text) (pos jsonPos : ℕ) :
    Result (Packet δ × Bool) :=
  if pos < jsonPos then
    match lib.castInt (substr payload pos (some jsonPos)) with
    | some i => { p with packId := i }.putDocument lib (payload.drop jsonPos)
    | none => .error .badLexicalCast
  else p.putDocument lib (payload.drop jsonPos)

/-- The part of `parse` after the type: a namespace, and a message. -/
def parseBody (lib : Library δ) (p : Packet δ) (payload : Text) (pos : ℕ) :
    Result (Packet δ × Bool) :=
  match findFirstOf [Json.openBrace, '[', Json.quote, '/'] payload pos with
  | none => .ok ({ p with nsp := ['/'] }, false)
  | some nspJsonPos =>
    if payload[nspJsonPos]? = some '/' then
      match findFirstOf [','] payload 0 with
      | none => .ok ({ p with nsp := payload.drop nspJsonPos }, false)
      | some commaPos =>
        let p := { p with nsp := substr payload nspJsonPos (some commaPos) }
        match findFirstOf [Json.quote, '[', Json.openBrace] payload (commaPos + 1) with
        | none => .ok (p, false)
        | some jsonPos => parseMessage lib p payload (commaPos + 1) jsonPos
    else parseMessage lib { p with nsp := ['/'] } payload pos nspJsonPos

/-- `parse`.  The answer tells whether payloads of byte strings are to come. -/
def parse (lib : Library δ) (p : Packet δ) (payload : Text) : Result (Packet δ × Bool) :=
  if isBinaryMessage payload then .error .assertion
  else
    let p := { p with
      frame := offset payload 0, message := .absent, packId := -1, buffers := [],
      pendingBuffers := 0 }
    if p.frame = FrameType.message then
      let p := { p with type := offset payload 1 }
      if p.type < PacketType.connect ∨ PacketType.binaryAck < p.type then .ok (p, false)
      else if PacketType.IsBinary p.type then
        let scorePos := findFirstOf ['-'] payload 0
        match lib.castUnsigned (substr payload 2 scorePos) with
        | some n =>
          -- without a '-' the position wraps around to the first character
          let pos := (scorePos.map (· + 1)).getD 0
          parseBody lib { p with pendingBuffers := n } payload pos
        | none => .error .badLexicalCast
      else parseBody lib p payload 2
    else parseBody lib p payload 1

/-- `parse_buffer`.  The answer tells whether more payloads are to come. -/
def parseBuffer (lib : Library δ) (p : Packet δ) (payload : Text) : Result (Packet δ × Bool) :=
  if 0 < p.pendingBuffers then
    if isBinaryMessage payload then
      let p := { p with
        buffers := p.buffers ++ [payload.tail], pendingBuffers := p.pendingBuffers - 1 }
      if p.pendingBuffers = 0 then
        match p.buffers with
        | [] => .error .nullPointer
        | text :: buffers => do
          let msg ← fromJson (parseDocument lib text) buffers
          return ({ p with message := msg, buffers := [] }, false)
      else .ok (p, true)
    else .error .assertion
  else .ok (p, false)

/-- The type that a packet is sent with. -/
def sentType (type : ℤ) (hasBinary : Bool) : ℤ :=
  if PacketType.determined type = PacketType.event then
    if hasBinary then PacketType.binaryEvent else PacketType.event
  else if PacketType.determined type = PacketType.ack then
    if hasBinary then PacketType.binaryAck else PacketType.ack
  else PacketType.determined type

/-- The namespace as it stands in a text. -/
def nspText (p : Packet δ) : Text :=
  if p.nsp ≠ [] ∧ p.nsp ≠ ['/'] then
    p.nsp ++ if p.message.isAbsent = false ∨ 0 ≤ p.packId then [','] else []
  else []

/-- The identifier as it stands in a text. -/
def idText (p : Packet δ) : Text := if 0 ≤ p.packId then intToText p.packId else []

/-- The number of payloads of byte strings, as it stands in a text. -/
def countText (buffers : List Text) : Text :=
  if buffers = [] then [] else intToText buffers.length ++ ['-']

/-- The document of the message of a packet, and the payloads of its byte strings. -/
def acceptDocument (lib : Library δ) (msg : Message δ) : Result (Text × List Text) :=
  if msg.isAbsent then .ok ([], [])
  else do
    let (v, buffers) ← acceptMessage msg []
    return (lib.write v, buffers)

/-- `accept`: the packet with its type determined, its text and the payloads of its byte strings. -/
def accept (lib : Library δ) (p : Packet δ) : Result (Packet δ × Text × List Text) :=
  let frameChar := Char.ofNat ((p.frame + 48) % 256).toNat
  if p.frame ≠ FrameType.message then .ok (p, [frameChar], [])
  else do
    let (json, buffers) ← acceptDocument lib p.message
    let p := { p with type := sentType p.type (buffers ≠ []) }
    return (p,
      frameChar :: (intToText p.type ++ countText buffers ++ p.nspText ++ p.idText ++ json),
      buffers)

end Packet

/-! ### The manager -/

/-- `packet_manager::encode`: the packet as `accept` leaves it, and its payloads, each with a mark
for a binary one. -/
def encode (lib : Library δ) (p : Packet δ) : Result (Packet δ × List (Bool × Text)) := do
  let (p, text, buffers) ← p.accept lib
  return (p, (false, text) :: buffers.map (true, ·))

/-- `packet_manager::put_payload`: the packet that waits for payloads, if there is one, and the
packet that is decoded, if there is one. -/
def putPayload (lib : Library δ) (partialPacket : Option (Packet δ)) (payload : Text) :
    Result (Option (Packet δ) × Option (Packet δ)) :=
  if Packet.isTextMessage payload then do
    let (p, more) ← Packet.new.parse lib payload
    return if more then (some p, none) else (partialPacket, some p)
  else if Packet.isBinaryMessage payload then
    match partialPacket with
    | some p => do
      let (p, more) ← p.parseBuffer lib payload
      return if more then (some p, none) else (none, some p)
    | none => .ok (none, none)
  else do
    let (p, _) ← Packet.new.parse lib payload
    return (partialPacket, some p)

/-- The manager on all payloads of a connection: what it still waits for, and the packets that it
decodes, in order. -/
def putPayloads (lib : Library δ) : Option (Packet δ) → List Text →
    Result (Option (Packet δ) × List (Packet δ))
  | partialPacket, [] => .ok (partialPacket, [])
  | partialPacket, payload :: payloads => do
    let (partialPacket, decoded) ← putPayload lib partialPacket payload
    let (partialPacket, packets) ← putPayloads lib partialPacket payloads
    return (partialPacket, decoded.toList ++ packets)

end Sio
