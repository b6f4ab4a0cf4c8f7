import TaquinSolver.Java.Text

/-! A connection of websocketpp, as its client sees it: the texts it takes, its close codes, and the
states in which it sends payloads and answers close frames. -/

namespace Sio

open Java (Text)

/-! ### The validation of texts -/

namespace Utf8Validator

def accept : ℕ := 0

def reject : ℕ := 1

/-- `utf8d`: the class of each byte, and the next state for each state and class. -/
def utf8d : List ℕ :=
  [0, 0, 0, 0, 0, 0, 0, 0, 0, 0, 0, 0, 0, 0, 0, 0, 0, 0, 0, 0, 0, 0, 0, 0, 0, 0, 0, 0, 0, 0, 0, 0,
    0, 0, 0, 0, 0, 0, 0, 0, 0, 0, 0, 0, 0, 0, 0, 0, 0, 0, 0, 0, 0, 0, 0, 0, 0, 0, 0, 0, 0, 0, 0, 0,
    0, 0, 0, 0, 0, 0, 0, 0, 0, 0, 0, 0, 0, 0, 0, 0, 0, 0, 0, 0, 0, 0, 0, 0, 0, 0, 0, 0, 0, 0, 0, 0,
    0, 0, 0, 0, 0, 0, 0, 0, 0, 0, 0, 0, 0, 0, 0, 0, 0, 0, 0, 0, 0, 0, 0, 0, 0, 0, 0, 0, 0, 0, 0, 0,
    1, 1, 1, 1, 1, 1, 1, 1, 1, 1, 1, 1, 1, 1, 1, 1, 9, 9, 9, 9, 9, 9, 9, 9, 9, 9, 9, 9, 9, 9, 9, 9,
    7, 7, 7, 7, 7, 7, 7, 7, 7, 7, 7, 7, 7, 7, 7, 7, 7, 7, 7, 7, 7, 7, 7, 7, 7, 7, 7, 7, 7, 7, 7, 7,
    8, 8, 2, 2, 2, 2, 2, 2, 2, 2, 2, 2, 2, 2, 2, 2, 2, 2, 2, 2, 2, 2, 2, 2, 2, 2, 2, 2, 2, 2, 2, 2,
    10, 3, 3, 3, 3, 3, 3, 3, 3, 3, 3, 3, 3, 4, 3, 3,
    11, 6, 6, 6, 5, 8, 8, 8, 8, 8, 8, 8, 8, 8, 8, 8,
    0, 1, 2, 3, 5, 8, 7, 1, 1, 1, 4, 6, 1, 1, 1, 1,
    1, 1, 1, 1, 1, 1, 1, 1, 1, 1, 1, 1, 1, 1, 1, 1, 1, 0, 1, 1, 1, 1, 1, 0, 1, 0, 1, 1, 1, 1, 1, 1,
    1, 2, 1, 1, 1, 1, 1, 2, 1, 2, 1, 1, 1, 1, 1, 1, 1, 1, 1, 1, 1, 1, 1, 2, 1, 1, 1, 1, 1, 1, 1, 1,
    1, 2, 1, 1, 1, 1, 1, 1, 1, 2, 1, 1, 1, 1, 1, 1, 1, 1, 1, 1, 1, 1, 1, 3, 1, 3, 1, 1, 1, 1, 1, 1,
    1, 3, 1, 1, 1, 1, 1, 3, 1, 3, 1, 1, 1, 1, 1, 1, 1, 3, 1, 1, 1, 1, 1, 1, 1, 1, 1, 1, 1, 1, 1, 1]

/-- `decode`.  The code point is left out: nothing reads it. -/
def decode (state : ℕ) (byte : Char) : ℕ :=
  utf8d.getD (256 + state * 16 + utf8d.getD (byte.toNat % 256) reject) reject

/-- `validator::decode`: the state at the end of a text, unless a byte is rejected. -/
def decodeText (state : ℕ) : Text → Option ℕ
  | [] => some state
  | byte :: text =>
    if decode state byte = reject then none else decodeText (decode state byte) text

def validate (text : Text) : Bool := decodeText accept text = some accept

-- `é` in UTF-8 and in Latin-1
example : validate [Char.ofNat 0xC3, Char.ofNat 0xA9] = true ∧
    validate [Char.ofNat 0xE9] = false := by decide

end Utf8Validator

/-! ### Payloads -/

/-- `frame::opcode`, of a frame with data. -/
inductive Opcode
  | text
  | binary
deriving DecidableEq

structure Payload where
  opcode : Opcode
  text : Text
deriving DecidableEq

namespace Payload

/-- `on_encode`. -/
def onEncode (isBinary : Bool) (text : Text) : Payload :=
  ⟨if isBinary then .binary else .text, text⟩

/-- `prepare_data_frame` makes a frame of the payload: a text has to be in UTF-8. -/
def isFramed (payload : Payload) : Bool :=
  payload.opcode = .binary || Utf8Validator.validate payload.text

/-- The payload of a packet of the frame `ping`. -/
def ping : Payload := ⟨.text, ['2']⟩

end Payload

/-! ### Close codes -/

namespace CloseStatus

def blank : ℕ := 0
def normal : ℕ := 1000
def protocolError : ℕ := 1002
def noStatus : ℕ := 1005
def abnormalClose : ℕ := 1006
def policyViolation : ℕ := 1008
def tlsHandshake : ℕ := 1015

def reserved (code : ℕ) : Bool :=
  decide (1016 ≤ code) && decide (code ≤ 2999) || code == 1004 || code == 1014

def invalid (code : ℕ) : Bool :=
  decide (code ≤ 999) || decide (5000 ≤ code) || code == noStatus || code == abnormalClose ||
    code == tlsHandshake

/-- `extract_code`.  There is no code when the source sets its error. -/
def extractCode : Text → Option ℕ
  | [] => some noStatus
  | [_] => none
  | high :: low :: _ =>
    let code := high.toNat * 256 + low.toNat
    if invalid code || reserved code then none else some code

end CloseStatus

/-! ### Connections -/

/-- `session::state` of a connection that was opened. -/
inductive SessionState
  | opened
  | closing
  | closed
deriving DecidableEq

structure Connection where
  localCloseCode : ℕ
  state : SessionState
deriving DecidableEq

namespace Connection

def opened : Connection := ⟨CloseStatus.abnormalClose, .opened⟩

/-- The code that `send_close_frame` puts for a blank one, with the code of the frame that it
answers, if it answers one. -/
def sentCode (code : ℕ) (answered : Option ℕ) : ℕ :=
  if code ≠ CloseStatus.blank then code
  else match answered with
    | none => CloseStatus.noStatus
    | some remote => if remote = CloseStatus.noStatus then CloseStatus.normal else remote

/-- `send_close_frame`.  The code is kept also when `prepare_close` refuses it. -/
def sendCloseFrame (k : Connection) (code : ℕ) (answered : Option ℕ) : Connection :=
  let code := sentCode code answered
  if CloseStatus.reserved code || CloseStatus.invalid code && code != CloseStatus.noStatus then
    { k with localCloseCode := code }
  else ⟨code, .closing⟩

/-- `connection::close`. -/
def close (k : Connection) (code : ℕ) : Connection :=
  if k.state = .opened then k.sendCloseFrame code none else k

/-- `process_control_frame`, for a close frame of the server. -/
def closeFrame (k : Connection) (payload : Text) : Connection :=
  if k.state = .closed then k
  else match CloseStatus.extractCode payload with
    | none => k.sendCloseFrame CloseStatus.protocolError none
    | some remote =>
      if Utf8Validator.validate (payload.drop 2) then
        -- the frame that answers one of the client changes nothing
        if k.state = .opened then k.sendCloseFrame CloseStatus.blank (some remote) else k
      else k.sendCloseFrame CloseStatus.protocolError none

/-- `terminate`.  An error also replaces the code of a connection that is closed already. -/
def terminate (k : Connection) (error : Bool) : Connection :=
  ⟨if error then CloseStatus.abnormalClose else k.localCloseCode, .closed⟩

/-- `handle_read_frame`, for a frame that cannot be read, with the code that `to_ws` has for it.  A
connection that cannot be closed with the code is ended. -/
def unreadable (k : Connection) (code : ℕ) : Connection :=
  if k.state = .opened ∧ (k.close code).state = .closing then k.close code
  else (k.close code).terminate true

/-- `connection::send` takes the payload. -/
def takes (k : Connection) (payload : Payload) : Bool := k.state = .opened && payload.isFramed

theorem close_of_ne {k : Connection} (h : k.state ≠ .opened) (code : ℕ) : k.close code = k :=
  if_neg h

end Connection

end Sio
