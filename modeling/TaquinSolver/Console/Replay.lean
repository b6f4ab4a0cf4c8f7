import TaquinSolver.Console.Listeners
import TaquinSolver.Legality

/-! What the program plays.  A `solve` with its identity starts the game from its first step, each
acknowledgement brings the next one, and the acknowledgement of the last step brings nothing, after
which the game starts again. -/

namespace Console

open Java (Text intToText)
open Sio (Message Request Callback Reaction)

variable {δ A : Type}

/-! ### One callback -/

/-- The text of the message of a step. -/
def sentStep : Message δ → Option Text
  | .array [.string name, .string s] => if name = stepEvent then some s else none
  | _ => none

/-- The text of a request that emits a step. -/
def stepOf (r : Request δ A Listener) : Option Text := r.emission.bind sentStep

/-- The texts of the steps of a game. -/
def rounds (sw : Bool) : List Text :=
  (List.range (game sw).length).map fun k =>
    intToText (k + 1 : ℕ) ++ ' ' :: (game sw).getD k []

def isAck : Callback δ A Listener → Bool
  | .listener .ackSolve _ => true
  | _ => false

def isLogin : Callback δ A Listener → Bool
  | .listener .login _ => true
  | _ => false

/-- The member `id` of the data of an event. -/
def idOf (messages : List (Message δ)) : Sio.Result Text := do
  (← (dataOf messages).member keyId).getString

/-- The callback is a `solve` for the identity `id`. -/
def Asks (id : Text) : Callback δ A Listener → Prop
  | .listener .solve event => idOf event.messages = .ok id
  | _ => False

theorem length_rounds (sw : Bool) : (rounds sw).length = (game sw).length := by
  rw [rounds, List.length_map, List.length_range]

theorem getElem?_rounds {sw : Bool} {k : ℕ} (hk : k < (game sw).length) :
    (rounds sw)[k]? = some (intToText (k + 1 : ℕ) ++ ' ' :: (game sw).getD k []) := by
  rw [rounds, List.getElem?_map, List.getElem?_range hk]
  rfl

theorem stepOf_emitText (s : Text) :
    stepOf (emitText stepEvent s : Request δ A Listener) = some s := by
  rw [stepOf, emitText, Request.emission, Option.bind_some, sentStep, if_pos rfl]

/-- An acknowledgement sends the step that is due, or starts the count again. -/
theorem call_ackSolve (g : Globals) (data : Message δ) :
    (g.call data .ackSolve : Sio.Result (Globals × List (Request δ A Listener))) =
      if g.step < (game g.sw).length then
        .ok ({ g with step := g.step + 1 }, [emitText stepEvent g.stepText])
      else .ok ({ g with step := 0 }, []) := by
  rw [Globals.call]
  cases hSw : g.sw with
  | true =>
    have hLength : (game true).length = 3 := rfl
    simp [hLength]
  | false =>
    have hLength : (game false).length = 6 := rfl
    simp [hLength]

/-- The steps that a callback sends, and the state that it leaves. -/
inductive Plays (g : Globals) : Callback δ A Listener → Reaction Globals δ A Listener → Prop
  | login {event : Sio.Event δ} {id : Text} {participants : ℤ}
      (hId : idOf event.messages = .ok id) :
      Plays g (.listener .login event)
        ⟨{ g with participants, id }, [.off Listener.login.event], []⟩
  | solve {event : Sio.Event δ} (hId : idOf event.messages = .ok g.id) :
      Plays g (.listener .solve event)
        ⟨{ g with step := 1 }, [emitText stepEvent { g with step := 0 }.stepText], []⟩
  | ack {event : Sio.Event δ} (hDue : g.step < (game g.sw).length) :
      Plays g (.listener .ackSolve event)
        ⟨{ g with step := g.step + 1 }, [emitText stepEvent g.stepText], []⟩
  | last {event : Sio.Event δ} (hOver : (game g.sw).length ≤ g.step) :
      Plays g (.listener .ackSolve event) ⟨{ g with step := 0 }, [], []⟩
  | other {cb : Callback δ A Listener} {does : List (Request δ A Listener)}
      (hAck : isAck cb = false) (hLogin : isLogin cb = false) (hAsks : ¬Asks g.id cb)
      (hDoes : does.filterMap stepOf = [])
      (hBinding : ∀ binding, does.foldl Sio.Socket.rebind binding = binding) :
      Plays g cb ⟨g, does, []⟩

theorem plays_of_react {g : Globals} {cb : Callback δ A Listener}
    {r : Reaction Globals δ A Listener} (h : react g cb = .ok r) : Plays g cb r := by
  cases cb with
  | ack | error | opened =>
    cases h
    exact .other rfl rfl id rfl fun _ => rfl
  | listener func event =>
    obtain ⟨⟨g', does⟩, hCall, h⟩ := Sio.Result.bind_eq_ok.1 h
    cases h
    cases func with
    | login =>
      obtain ⟨_, -, hCall⟩ := Sio.Result.bind_eq_ok.1 hCall
      obtain ⟨_, -, hCall⟩ := Sio.Result.bind_eq_ok.1 hCall
      obtain ⟨msg, hMsg, hCall⟩ := Sio.Result.bind_eq_ok.1 hCall
      obtain ⟨text, hText, hCall⟩ := Sio.Result.bind_eq_ok.1 hCall
      cases hCall
      refine .login ?_
      rw [idOf, hMsg]
      exact hText
    | newMessage =>
      obtain ⟨_, -, hCall⟩ := Sio.Result.bind_eq_ok.1 hCall
      obtain ⟨_, -, hCall⟩ := Sio.Result.bind_eq_ok.1 hCall
      obtain ⟨_, -, hCall⟩ := Sio.Result.bind_eq_ok.1 hCall
      obtain ⟨_, -, hCall⟩ := Sio.Result.bind_eq_ok.1 hCall
      cases hCall
      exact .other rfl rfl id rfl fun _ => rfl
    | start | errorSolve =>
      cases hCall
      exact .other rfl rfl id rfl fun _ => rfl
    | getMatriz =>
      obtain ⟨_, -, hCall⟩ := Sio.Result.bind_eq_ok.1 hCall
      obtain ⟨_, -, hCall⟩ := Sio.Result.bind_eq_ok.1 hCall
      cases hCall
      exact .other rfl rfl id rfl fun _ => rfl
    | solve =>
      obtain ⟨_, -, hCall⟩ := Sio.Result.bind_eq_ok.1 hCall
      obtain ⟨_, -, hCall⟩ := Sio.Result.bind_eq_ok.1 hCall
      obtain ⟨msg, hMsg, hCall⟩ := Sio.Result.bind_eq_ok.1 hCall
      obtain ⟨text, hText, hCall⟩ := Sio.Result.bind_eq_ok.1 hCall
      have hId : idOf event.messages = .ok text := by rw [idOf, hMsg]; exact hText
      split at hCall
      · rename_i hEq
        cases hCall
        exact .solve (hEq ▸ hId)
      · rename_i hNe
        cases hCall
        refine .other rfl rfl (fun hAsks => hNe ?_) rfl fun _ => rfl
        exact Except.ok.inj (hId.symm.trans hAsks)
    | ackSolve =>
      rw [call_ackSolve] at hCall
      split at hCall <;> rename_i hDue <;> cases hCall
      · exact .ack hDue
      · exact .last (Nat.le_of_not_lt hDue)

/-! ### Any callbacks -/

/-- The texts of the steps that a list of callbacks sends. -/
def stepsOf (outs : List (List (Request δ A Listener))) : List Text :=
  outs.flatten.filterMap stepOf

/-- The step that is sent at the place `k`, counted over all rounds: none at the end of a round. -/
def dueAt (sw : Bool) (k : ℕ) : Option Text := (rounds sw)[k % ((game sw).length + 1)]?

/-- The steps that are sent at `n` places from `k` on. -/
def due (sw : Bool) (k n : ℕ) : List Text := (List.range' k n).filterMap (dueAt sw)

theorem due_succ (sw : Bool) (k n : ℕ) :
    due sw k (n + 1) = (dueAt sw k).toList ++ due sw (k + 1) n := by
  rw [due, List.range'_succ]
  cases h : dueAt sw k with
  | none => exact List.filterMap_cons_none h
  | some s => exact List.filterMap_cons_some h

/-- In the middle of a round the next step is due. -/
theorem dueAt_of_lt {g : Globals} {k : ℕ} (hStep : g.step = k % ((game g.sw).length + 1))
    (hDue : g.step < (game g.sw).length) :
    dueAt g.sw k = some g.stepText ∧ g.step + 1 = (k + 1) % ((game g.sw).length + 1) := by
  constructor
  · rw [dueAt, ← hStep, getElem?_rounds hDue]
    rfl
  · rw [← Nat.mod_add_mod, ← hStep, Nat.mod_eq_of_lt (by omega)]

/-- At its end none is. -/
theorem dueAt_of_le {g : Globals} {k : ℕ} (hStep : g.step = k % ((game g.sw).length + 1))
    (hOver : (game g.sw).length ≤ g.step) :
    dueAt g.sw k = none ∧ 0 = (k + 1) % ((game g.sw).length + 1) := by
  have hLt : k % ((game g.sw).length + 1) < (game g.sw).length + 1 := Nat.mod_lt _ (by omega)
  have hLast : g.step = (game g.sw).length := by omega
  constructor
  · rw [dueAt, ← hStep, hLast, ← length_rounds]
    exact List.getElem?_eq_none (Nat.le_refl _)
  · rw [← Nat.mod_add_mod, ← hStep, hLast, Nat.mod_self]

theorem stepsOf_cons (does : List (Request δ A Listener))
    (outs : List (List (Request δ A Listener))) :
    stepsOf (does :: outs) = does.filterMap stepOf ++ stepsOf outs := by
  rw [stepsOf, List.flatten_cons, List.filterMap_append]
  rfl

/-- Without a `solve` for the program, the steps depend only on the number of acknowledgements. -/
theorem reactions_due {g g' : Globals} {cbs : List (Callback δ A Listener)}
    {outs : List (List (Request δ A Listener))} {k : ℕ}
    (hRun : Sio.Program.reactions react g cbs = .ok (g', outs))
    (hQuiet : ∀ cb ∈ cbs, isLogin cb = false ∧ ¬Asks g.id cb)
    (hStep : g.step = k % ((game g.sw).length + 1)) :
    g' = { g with step := (k + cbs.countP isAck) % ((game g.sw).length + 1) } ∧
      stepsOf outs = due g.sw k (cbs.countP isAck) := by
  induction cbs generalizing g k outs with
  | nil =>
    cases hRun
    refine ⟨?_, rfl⟩
    rw [List.countP_nil, Nat.add_zero, ← hStep]
  | cons cb cbs ih =>
    obtain ⟨r, hReact, hRun⟩ := Sio.Result.bind_eq_ok.1 hRun
    obtain ⟨⟨g₁, outs₁⟩, hRest, hRun⟩ := Sio.Result.bind_eq_ok.1 hRun
    cases hRun
    have hTail : ∀ cb ∈ cbs, isLogin cb = false ∧ ¬Asks g.id cb := fun cb hcb =>
      hQuiet cb (by simp [hcb])
    obtain ⟨hNoLogin, hNoAsk⟩ := hQuiet cb (by simp)
    have hPlays := plays_of_react hReact
    cases hPlays with
    | login => cases hNoLogin
    | solve hId => exact absurd hId hNoAsk
    | other hAck _ _ hDoes _ =>
      obtain ⟨hEnd, hSteps⟩ := ih hRest hTail hStep
      have hAck : isAck cb ≠ true := by simp [hAck]
      rw [List.countP_cons_of_neg hAck, stepsOf_cons, hDoes]
      exact ⟨hEnd, hSteps⟩
    | ack hDue =>
      obtain ⟨hText, hNext⟩ := dueAt_of_lt hStep hDue
      obtain ⟨hEnd, hSteps⟩ := ih (g := { g with step := g.step + 1 }) hRest hTail hNext
      rw [List.countP_cons_of_pos (by rfl), due_succ, hText, stepsOf_cons, hSteps]
      constructor
      · rw [hEnd]
        simp only [Nat.add_assoc, Nat.add_comm 1]
      · rfl
    | last hOver =>
      obtain ⟨hText, hNext⟩ := dueAt_of_le hStep hOver
      obtain ⟨hEnd, hSteps⟩ := ih (g := { g with step := 0 }) hRest hTail hNext
      rw [List.countP_cons_of_pos (by rfl), due_succ, hText, stepsOf_cons, hSteps]
      constructor
      · rw [hEnd]
        simp only [Nat.add_assoc, Nat.add_comm 1]
      · rfl

/-- After a `solve` for the program, the steps are the game from its beginning, round by round. -/
theorem reactions_played {g g' : Globals} {cb : Callback δ A Listener}
    {cbs : List (Callback δ A Listener)} {outs : List (List (Request δ A Listener))}
    (hRun : Sio.Program.reactions react g (cb :: cbs) = .ok (g', outs)) (hAsks : Asks g.id cb)
    (hQuiet : ∀ cb ∈ cbs, isLogin cb = false ∧ ¬Asks g.id cb) :
    g' = { g with step := (1 + cbs.countP isAck) % ((game g.sw).length + 1) } ∧
      stepsOf outs = due g.sw 0 (cbs.countP isAck + 1) := by
  obtain ⟨r, hReact, hRun⟩ := Sio.Result.bind_eq_ok.1 hRun
  obtain ⟨⟨g₁, outs₁⟩, hRest, hRun⟩ := Sio.Result.bind_eq_ok.1 hRun
  cases hRun
  have hPlays := plays_of_react hReact
  cases hPlays with
  | login | ack | last => exact hAsks.elim
  | other _ _ hNo => exact absurd hAsks hNo
  | solve hId =>
    have hPos : 0 < (game g.sw).length := by cases g.sw <;> decide
    obtain ⟨hText, hNext⟩ := dueAt_of_lt (g := { g with step := 0 }) (k := 0)
      (Nat.zero_mod _).symm hPos
    obtain ⟨hEnd, hSteps⟩ := reactions_due (g := { g with step := 1 }) hRest hQuiet hNext
    rw [due_succ, hText, stepsOf_cons, hSteps]
    exact ⟨hEnd, rfl⟩

end Console
