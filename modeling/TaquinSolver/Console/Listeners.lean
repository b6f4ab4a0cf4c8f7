import TaquinSolver.Sio.Program

/-! The program `main.cpp`: the listeners of the class `ServerTaquin`, which play a fixed game, and
what its main thread asks for. -/

namespace Sio.Message

variable {δ : Type}

/-- `get_map`, `get_string` and `get_int`, which assert that the message is of their kind. -/
def getMap : Message δ → Result (List (Java.Text × Message δ))
  | .absent => .error .nullPointer
  | .object m => .ok m
  | _ => .error .assertion

def getString : Message δ → Result Java.Text
  | .absent => .error .nullPointer
  | .string s => .ok s
  | _ => .error .assertion

def getInt : Message δ → Result Int64
  | .absent => .error .nullPointer
  | .int i => .ok i
  | _ => .error .assertion

/-- `get_map()[key]`, a null pointer when there is no such member. -/
def member (msg : Message δ) (key : Java.Text) : Result (Message δ) := do
  return ((← msg.getMap).lookup key).getD .absent

end Sio.Message

namespace Console

open Java (Text intToText)
open Sio (Message Request Callback Reaction)

/-- The globals: which of the two games to play, the identity, the number of steps sent, and the
participants. -/
structure Globals where
  sw : Bool
  id : Text
  step : ℕ
  participants : ℤ

/-- The functions that `loginServer` and `bind_events` register. -/
inductive Listener
  | login
  | newMessage
  | start
  | getMatriz
  | solve
  | ackSolve
  | errorSolve
  deriving DecidableEq

/-- The event that a function is registered for. -/
def Listener.event : Listener → Text
  | .login => ['l', 'o', 'g', 'i', 'n']
  | .newMessage => ['n', 'e', 'w', ' ', 'm', 'e', 's', 's', 'a', 'g', 'e']
  | .start => ['s', 't', 'a', 'r', 't']
  | .getMatriz => ['g', 'e', 't', '-', 'm', 'a', 't', 'r', 'i', 'z']
  | .solve => ['s', 'o', 'l', 'v', 'e']
  | .ackSolve => ['a', 'c', 'k', '-', 's', 'o', 'l', 'v', 'e']
  | .errorSolve => ['e', 'r', 'r', 'o', 'r', '-', 's', 'o', 'l', 'v', 'e']

def keyId : Text := ['i', 'd']

def keyMatriz : Text := ['m', 'a', 't', 'r', 'i', 'z']

/-- `solve1` and `solve2`, which have ten places each. -/
def solve1 : List Text := [['0', ' ', '0'], ['0', ' ', '1'], ['1', ' ', '1']]

def solve2 : List Text :=
  [['0', ' ', '1'], ['1', ' ', '1'], ['1', ' ', '0'], ['0', ' ', '0'], ['0', ' ', '1'],
    ['1', ' ', '1']]

/-- The steps of a game. -/
def game (sw : Bool) : List Text := if sw then solve1 else solve2

/-- The board that is sent for the opponent. -/
def matriz (sw : Bool) : Text :=
  if sw then ['0', ' ', '3', ' ', '2', ' ', '1'] else ['1', ' ', '0', ' ', '3', ' ', '2']

variable {δ A : Type}

/-- `emit` with one text. -/
def emitText (name s : Text) : Request δ A Listener := .emit name [.string s] none

def stepEvent : Text := ['s', 't', 'e', 'p']

/-- The text of the next step, as `step_ + 1` and the place of the game. -/
def Globals.stepText (g : Globals) : Text :=
  intToText (g.step + 1 : ℕ) ++ ' ' :: (game g.sw).getD g.step []

/-- `get_message`: the first message of an event. -/
def dataOf (messages : List (Message δ)) : Message δ := messages.headD .absent

/-- What a function does with the data of an event. -/
def Globals.call (g : Globals) (data : Message δ) :
    Listener → Sio.Result (Globals × List (Request δ A Listener))
  | .login => do
    let numUsers ← (← data.member ['n', 'u', 'm', 'U', 's', 'e', 'r', 's']).getInt
    let id ← (← data.member keyId).getString
    return ({ g with participants := numUsers.toInt.bmod (2 ^ 32), id },
      [.off Listener.login.event])
  | .newMessage => do
    let _ ← (← data.member ['u', 's', 'e', 'r', 'n', 'a', 'm', 'e']).getString
    let _ ← (← data.member ['m', 'e', 's', 's', 'a', 'g', 'e']).getString
    return (g, [])
  | .start =>
    .ok (g, [emitText ['s', 't', 'a', 'r', 't', '-', 'r', 'e', 'q', 'u', 'e', 's', 't'] g.id])
  | .getMatriz => do
    let _ ← (← data.member ['n', '_', 's', 'i', 'z', 'e']).getString
    return (g, [emitText
      ['g', 'e', 't', '-', 'm', 'a', 't', 'r', 'i', 'z', '-', 'r', 'e', 'p', 'l', 'y']
      (matriz g.sw)])
  | .solve => do
    let _ ← (← data.member keyMatriz).getString
    let id ← (← data.member keyId).getString
    if id = g.id then
      let g := { g with step := 0 }
      return ({ g with step := 1 }, [emitText stepEvent g.stepText])
    else return (g, [])
  | .ackSolve =>
    if g.sw ∧ g.step < 3 then
      .ok ({ g with step := g.step + 1 }, [emitText stepEvent g.stepText])
    else if g.sw = false ∧ g.step < 6 then
      .ok ({ g with step := g.step + 1 }, [emitText stepEvent g.stepText])
    else .ok ({ g with step := 0 }, [])
  | .errorSolve => .ok (g, [])

/-- The callbacks of the program.  It puts no acknowledgement, and of the other kinds it has none
that does anything. -/
def react (g : Globals) : Callback δ A Listener → Sio.Result (Reaction Globals δ A Listener)
  | .listener func event => do
    let (g, does) ← g.call (dataOf event.messages) func
    return ⟨g, does, []⟩
  | _ => .ok ⟨g, [], []⟩

/-! ### The main thread -/

def bind (func : Listener) : Request δ A Listener := .on func.event func

/-- `loginServer`, which ends with `bind_events`.  Between the first two requests and the others it
waits to be woken, which can happen at any time. -/
def loginServer (nickname : Text) : List (Request δ A Listener) :=
  bind .login :: emitText ['a', 'd', 'd', ' ', 'u', 's', 'e', 'r'] nickname ::
    [.newMessage, .start, .getMatriz, .solve, .ackSolve, .errorSolve].map bind

/-- The lines up to `$exit`, without the empty ones. -/
def chat (lines : List Text) : List (Request δ A Listener) :=
  ((lines.takeWhile fun line => line ≠ ['$', 'e', 'x', 'i', 't']).filter fun line => line ≠ []).map
    (emitText Listener.newMessage.event)

/-- The program before anything happens: its socket is that of the default namespace. -/
def main (sw : Bool) (nickname : Text) (lines : List Text) (globalEventId : ℕ) :
    Sio.Program Globals δ A Listener :=
  { memory := ⟨sw, [], 0, -1⟩
    socket := .new ['/'] globalEventId
    main := loginServer nickname ++ chat lines }

end Console
