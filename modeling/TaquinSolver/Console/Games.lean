import TaquinSolver.Console.Runs

/-! The two games as solutions of boards.  Each program plays a solution of the board that the
other one sends for its opponent, so its steps are legal as long as the server acknowledges each
step once. -/

namespace Console

open Java (Text intToText tokens)
open Sio (Message Request Callback Reaction Program Call)
open Sliding
open TaquinSolver (Arrival Observer Session Legal Emission rowMajor stepText)

variable {n : ℕ} {δ A : Type}

/-! ### Solutions -/

/-- The board from which the blank comes to the goal along a path of cells. -/
def undo : List (Cell n) → Board n
  | c :: c' :: cs => slide (undo (c' :: cs)) c' c
  | _ => goal n

/-- The blank is at the start of the path, and the path solves the board. -/
theorem undo_moves {c : Cell n} {cs : List (Cell n)} (hPath : (c :: cs).IsChain Adjacent)
    (hCorner : ∀ d ∈ (c :: cs).getLast?, cornerDist d = 0) :
    IsBlank (undo (c :: cs)) c ∧ Moves (undo (c :: cs)) cs (goal n) := by
  induction cs generalizing c with
  | nil => exact ⟨(isBlank_goal_iff c).2 (hCorner c rfl), .nil _⟩
  | cons c' cs ih =>
    obtain ⟨hAdj, hRest⟩ := List.isChain_cons_cons.1 hPath
    obtain ⟨hBlank, hMoves⟩ := ih hRest (by simpa using hCorner)
    have hStart : IsBlank (undo (c :: c' :: cs)) c := hBlank.slide c
    refine ⟨hStart, .cons hStart hAdj ?_⟩
    rw [undo, slide_slide]
    exact hMoves

theorem reachable_of_moves {b b' : Board n} {cs : List (Cell n)} (h : Moves b cs b') :
    Relation.ReflTransGen Move b b' := by
  induction h with
  | nil => exact .refl
  | cons hBlank hAdj _ ih => exact .head ⟨_, _, hBlank, hAdj, rfl⟩ ih

/-- The text of a board determines it. -/
theorem board_of_text (hn : 0 < n) {b b' : Board n}
    (h : tokens (rowMajor b) = tokens (rowMajor b')) : b = b' := by
  have hne : ∀ b : Board n, rowMajor b ≠ [] := by
    intro b hNil
    have hLength := TaquinSolver.length_rowMajor b
    rw [hNil, List.length_nil] at hLength
    exact absurd hLength.symm (Nat.mul_pos hn hn).ne'
  have hTexts := congrArg (Java.split ' ') h
  rw [Java.split_tokens (hne b), Java.split_tokens (hne b')] at hTexts
  have hRows : rowMajor b = rowMajor b' :=
    List.map_injective_iff.2 (fun _ _ => Java.intToText_natCast_inj.1) hTexts
  ext c
  have hCell := TaquinSolver.getElem?_rowMajor b c
  rw [hRows, TaquinSolver.getElem?_rowMajor] at hCell
  exact (Option.some.inj hCell).symm

/-! ### The games -/

def topLeft : Cell 2 := (⟨0, Nat.two_pos⟩, ⟨0, Nat.two_pos⟩)

def topRight : Cell 2 := (⟨0, Nat.two_pos⟩, ⟨1, Nat.one_lt_two⟩)

def bottomLeft : Cell 2 := (⟨1, Nat.one_lt_two⟩, ⟨0, Nat.two_pos⟩)

def bottomRight : Cell 2 := (⟨1, Nat.one_lt_two⟩, ⟨1, Nat.one_lt_two⟩)

/-- The cells of the blank in a game, from the start. -/
def path (sw : Bool) : List (Cell 2) :=
  if sw then [topRight, topLeft, topRight, bottomRight]
  else [topLeft, topRight, bottomRight, bottomLeft, topLeft, topRight, bottomRight]

/-- The place of the blank after `k` steps. -/
def blankAt (sw : Bool) (k : ℕ) : Cell 2 := (path sw).getD k bottomRight

/-- The board after `k` steps. -/
def boardAt (sw : Bool) (k : ℕ) : Board 2 := undo ((path sw).drop k)

/-- A game solves the board that the other program sends. -/
theorem game_solves (sw : Bool) :
    tokens (rowMajor (boardAt sw 0)) = matriz (!sw) ∧
      Moves (boardAt sw 0) ((path sw).drop 1) (goal 2) := by
  cases sw with
  | true => exact ⟨by decide, (undo_moves (by decide) (by decide)).2⟩
  | false => exact ⟨by decide, (undo_moves (by decide) (by decide)).2⟩

theorem length_game (sw : Bool) : (path sw).length = (game sw).length + 1 := by
  cases sw <;> rfl

theorem drop_path {sw : Bool} {k : ℕ} (hk : k ≤ (game sw).length) :
    (path sw).drop k = blankAt sw k :: (path sw).drop (k + 1) := by
  have hLt : k < (path sw).length := by rw [length_game]; omega
  rw [List.drop_eq_getElem_cons hLt, blankAt, List.getD_eq_getElem _ _ hLt]

/-- In a game each step moves the blank of an unsolved board to an adjacent cell. -/
theorem boardAt_step {sw : Bool} {k : ℕ} (hk : k < (game sw).length) :
    boardAt sw k ≠ goal 2 ∧ IsBlank (boardAt sw k) (blankAt sw k) ∧
      Adjacent (blankAt sw k) (blankAt sw (k + 1)) ∧
      slide (boardAt sw k) (blankAt sw k) (blankAt sw (k + 1)) = boardAt sw (k + 1) := by
  have hUnsolved : ∀ sw, ∀ k < (game sw).length, rowMajor (boardAt sw k) ≠ rowMajor (goal 2) := by
    decide
  have hBlank : ∀ sw, ∀ k < (game sw).length, (boardAt sw k (blankAt sw k)).val = 0 := by decide
  have hAdj : ∀ sw, ∀ k < (game sw).length, Adjacent (blankAt sw k) (blankAt sw (k + 1)) := by
    decide
  refine ⟨fun hEq => hUnsolved sw k hk (by rw [hEq]), hBlank sw k hk, hAdj sw k hk, ?_⟩
  have hNext : (path sw).drop (k + 1) = blankAt sw (k + 1) :: (path sw).drop (k + 2) :=
    drop_path hk
  have hBack : boardAt sw k =
      slide (boardAt sw (k + 1)) (blankAt sw (k + 1)) (blankAt sw k) := by
    rw [boardAt, drop_path hk.le, boardAt, hNext, undo]
  rw [hBack, slide_slide]

theorem boardAt_length (sw : Bool) : boardAt sw (game sw).length = goal 2 := by
  cases sw <;> rfl

/-- The texts that are sent are those of the moves. -/
theorem stepText_eq {g : Globals} (hStep : g.step < (game g.sw).length) :
    g.stepText = stepText (g.step + 1 : ℕ) (blankAt g.sw (g.step + 1)) := by
  have hTexts : ∀ sw, ∀ k < (game sw).length, (game sw).getD k [] =
      intToText ((blankAt sw (k + 1)).1 : ℕ) ++ ' ' :: intToText ((blankAt sw (k + 1)).2 : ℕ) := by
    decide
  rw [Globals.stepText, hTexts g.sw g.step hStep]
  rw [stepText, List.append_assoc]
  rfl

/-! ### Legal runs -/

/-- The identity of a program after an arrival. -/
def named (id : Text) : Arrival 2 → Text
  | .login obj => (obj.getString keyId).getD id
  | _ => id

/-- What a callback of the program `id` is to an observer.  A solve for another program is like a
`start`, whatever it carries: no step belongs to it. -/
inductive Shows (id : Text) : Callback δ A Listener → Arrival 2 → Prop
  | solve {event : Sio.Event δ} {r : TaquinSolver.Request 2} (hAddressee : r.addressee = id)
      (hId : idOf event.messages = .ok id)
      (hMatriz : ((dataOf event.messages).member keyMatriz >>= Message.getString) =
        .ok (tokens (rowMajor r.board))) : Shows id (.listener .solve event) (.solve r)
  | foreign {event : Sio.Event δ} (hOther : idOf event.messages ≠ .ok id) :
      Shows id (.listener .solve event) .start
  | ack {event : Sio.Event δ} : Shows id (.listener .ackSolve event) .ack
  | error {event : Sio.Event δ} : Shows id (.listener .errorSolve event) .error
  | login {event : Sio.Event δ} {id' : Text} (hId : idOf event.messages = .ok id') :
      Shows id (.listener .login event) (.login [(keyId, id')])
  | other {cb : Callback δ A Listener} (hOther : ∀ func event, cb = .listener func event →
      func = .newMessage ∨ func = .start ∨ func = .getMatriz) : Shows id cb .start

/-- The callbacks of a run, from the identity `id` on. -/
inductive Shown : Text → List (Callback δ A Listener) → List (Arrival 2) → Prop
  | nil (id : Text) : Shown id [] []
  | cons {id : Text} {cb : Callback δ A Listener} {a : Arrival 2}
      {cbs : List (Callback δ A Listener)} {as : List (Arrival 2)} (hHead : Shows id cb a)
      (hTail : Shown (named id a) cbs as) : Shown id (cb :: cbs) (a :: as)

/-- After each solve for the program come at most as many acknowledgements as its game has steps,
of which `left` are still to come, and none comes before the first. -/
def Served (sw : Bool) : Text → Option ℕ → List (Arrival 2) → Prop
  | _, _, [] => True
  | id, left, .solve r :: as =>
    if r.addressee = id then Served sw id (some (game sw).length) as else Served sw id left as
  | id, left, .ack :: as => ∃ k, left = some (k + 1) ∧ Served sw id (some k) as
  | id, left, a :: as => Served sw (named id a) left as

/-- The program in the observed session. -/
inductive Tracks (g : Globals) : Option (Session 2) → Option ℕ → Prop
  | closed (hStep : g.step = 0) : Tracks g none none
  | playing {k : ℕ} (hk : k < (game g.sw).length) (hStep : g.step = k + 1) :
      Tracks g (some ⟨boardAt g.sw k, some (boardAt g.sw (k + 1))⟩) (some ((game g.sw).length - k))
  | finished (hStep : g.step = 0) : Tracks g (some ⟨goal 2, none⟩) (some 0)

theorem Tracks.congr {g g' : Globals} {session : Option (Session 2)} {left : Option ℕ}
    (h : Tracks g session left) (hSw : g'.sw = g.sw) (hStep : g'.step = g.step) :
    Tracks g' session left := by
  cases h with
  | closed h0 => exact .closed (hStep.trans h0)
  | playing hk hPlaying =>
    rw [← hSw] at hk ⊢
    exact .playing hk (hStep.trans hPlaying)
  | finished h0 => exact .finished (hStep.trans h0)

/-- What the observer sees of the requests of a callback. -/
def emissions (does : List (Request δ A Listener)) : List Emission :=
  (does.filterMap stepOf).map .step

theorem emissions_step (s : Text) :
    emissions ([emitText stepEvent s] : List (Request δ A Listener)) = [.step s] := by
  rw [emissions, List.filterMap_cons_some (stepOf_emitText s)]
  rfl

/-- The step that is due is legal on the board of the game. -/
theorem legal_game_step {o : Observer 2} {a : Arrival 2} {rest : List (Arrival 2 × List Emission)}
    {g : Globals} {p : Option (Board 2)} (hStep : g.step < (game g.sw).length)
    (hSession : (o.receive a).session = some ⟨boardAt g.sw g.step, p⟩) :
    Legal o ((a, [.step g.stepText]) :: rest) ↔
      Legal { o.receive a with
        session := some ⟨boardAt g.sw g.step, some (boardAt g.sw (g.step + 1))⟩ } rest := by
  obtain ⟨hUnsolved, hBlank, hAdj, hSlide⟩ := boardAt_step hStep
  rw [stepText_eq hStep, ← hSlide]
  constructor
  · intro hLegal
    generalize hText : stepText _ _ = s at hLegal
    cases hLegal with
    | quiet hOut _ => exact absurd (List.mem_singleton_self _) (hOut s)
    | step hSession' _ hBlank' _ hRest =>
      rw [hSession] at hSession'
      cases hSession'
      obtain ⟨h1, h2⟩ := TaquinSolver.eq_of_stepText hText
      rw [hBlank.unique hBlank', Prod.ext (Fin.ext h1) (Fin.ext h2)]
      exact hRest
  · exact .step hSession hUnsolved hBlank hAdj

theorem game_pos (sw : Bool) : 0 < (game sw).length := by
  cases sw <;> decide

/-- An acknowledgement is served when a step is left to acknowledge. -/
theorem legal_ack {g : Globals} {o : Observer 2} {left : Option ℕ} {event : Sio.Event δ}
    {r : Reaction Globals δ A Listener} (hTracks : Tracks g o.session left)
    (hPlays : Plays g (.listener .ackSolve event) r) :
    ((∀ k, left ≠ some (k + 1)) ∧ ∀ rest, ¬Legal o ((.ack, emissions r.does) :: rest)) ∨
      r.memory.sw = g.sw ∧ r.memory.id = g.id ∧ ∃ k session, left = some (k + 1) ∧
        Tracks r.memory session (some k) ∧ ∀ rest, Legal o ((.ack, emissions r.does) :: rest) ↔
          Legal { o with session } rest := by
  have hPos := game_pos g.sw
  generalize hSession : o.session = session at hTracks
  cases hPlays with
  | other hAck => cases hAck
  | ack hDue =>
    rw [emissions_step]
    cases hTracks with
    | closed hStep =>
      refine .inl ⟨by simp, fun rest => TaquinSolver.not_legal_of_none ?_⟩
      rw [Observer.receive, hSession]
      rfl
    | finished hStep =>
      refine .inl ⟨by simp, fun rest => TaquinSolver.not_legal_of_goal (p := none) ?_⟩
      rw [Observer.receive, hSession]
      rfl
    | @playing k hk hStep =>
      refine .inr ⟨rfl, rfl, (game g.sw).length - (k + 1), _, by congr 1; omega,
        .playing (g := { g with step := g.step + 1 }) (hStep ▸ hDue) (by simp [hStep]),
        fun rest => ?_⟩
      have hNow : (o.receive .ack).session = some ⟨boardAt g.sw g.step, none⟩ := by
        rw [Observer.receive, hSession, hStep]
        rfl
      rw [legal_game_step hDue hNow, hStep]
      rfl
  | last hOver =>
    cases hTracks with
    | closed hStep => omega
    | finished hStep => omega
    | @playing k hk hStep =>
      have hLast : k + 1 = (game g.sw).length := by omega
      refine .inr ⟨rfl, rfl, 0, some ⟨goal 2, none⟩, by congr 1; omega, .finished rfl,
        fun rest => ?_⟩
      have hNow : (o.receive .ack).session = some ⟨goal 2, none⟩ := by
        rw [Observer.receive, hSession, ← boardAt_length g.sw, ← hLast]
        rfl
      rw [TaquinSolver.legal_quiet_iff (by simp [emissions]), ← hNow]
      rfl

theorem legal_iff_of_tracks {g g' : Globals} {o : Observer 2} {left : Option ℕ}
    {cbs : List (Callback δ A Listener)} {outs : List (List (Request δ A Listener))}
    {as : List (Arrival 2)} (hShown : Shown g.id cbs as)
    (hBoards : ∀ r, .solve r ∈ as → r.board = boardAt g.sw 0)
    (hRun : Program.reactions react g cbs = .ok (g', outs)) (hId : o.id = some g.id)
    (hTracks : Tracks g o.session left) :
    Legal o (as.zip (outs.map emissions)) ↔ Served g.sw g.id left as := by
  induction cbs generalizing g o left outs as with
  | nil =>
    cases hShown
    exact iff_of_true (.nil o) trivial
  | cons cb cbs ih =>
    obtain ⟨r, hReact, hRun⟩ := Sio.Result.bind_eq_ok.1 hRun
    obtain ⟨⟨g₁, outs₁⟩, hRest, hRun⟩ := Sio.Result.bind_eq_ok.1 hRun
    cases hRun
    obtain _ | @⟨_, _, a, _, as, hHead, hTail⟩ := hShown
    have hBoards' : ∀ r, .solve r ∈ as → r.board = boardAt g.sw 0 :=
      fun r hr => hBoards r (by simp [hr])
    have hPlays := plays_of_react hReact
    rw [List.map_cons, List.zip_cons_cons]
    cases hHead with
    | @solve event q hAddressee hOwn hMatriz =>
      rw [Served, if_pos hAddressee]
      cases hPlays with
      | other _ _ hNo => exact absurd hOwn hNo
      | solve =>
        have hReceive : o.receive (.solve q) =
            { o with session := some ⟨boardAt g.sw 0, none⟩ } := by
          rw [Observer.receive, if_pos (by rw [hId, hAddressee]), hBoards q (by simp)]
        rw [emissions_step,
          legal_game_step (g := { g with step := 0 }) (game_pos g.sw) (by rw [hReceive])]
        refine ih (g := { g with step := 1 }) hTail hBoards' hRest ?_
          (.playing (k := 0) (game_pos g.sw) rfl)
        rw [hReceive]
        exact hId
    | foreign hOther =>
      rw [Served]
      · cases hPlays with
        | solve hOwn => exact absurd hOwn hOther
        | other _ _ _ hDoes =>
          rw [TaquinSolver.legal_quiet_iff (by simp [emissions, hDoes])]
          exact ih hTail hBoards' hRest hId hTracks
      · simp
      · simp
    | ack =>
      rw [Served]
      obtain ⟨hNone, hIllegal⟩ | ⟨hSw, hSame, k, session, hLeft, hNext, hLegal⟩ :=
        legal_ack hTracks hPlays
      · apply iff_of_false (hIllegal _)
        rintro ⟨k, hk, -⟩
        exact hNone k hk
      · have hServed := ih (o := { o with session }) (by rwa [hSame]) (by rwa [hSw]) hRest
          (by rw [hSame]; exact hId) hNext
        rw [hLegal, hServed, hSw, hSame]
        constructor
        · exact fun h => ⟨k, hLeft, h⟩
        · rintro ⟨j, hj, h⟩
          obtain rfl : k = j := by simpa [hLeft] using hj
          exact h
    | error =>
      rw [Served]
      · cases hPlays with
        | other _ _ _ hDoes =>
          rw [TaquinSolver.legal_quiet_iff (by simp [emissions, hDoes])]
          exact ih hTail hBoards' hRest hId hTracks
      · simp
      · simp
    | @login event id hName =>
      rw [Served]
      · cases hPlays with
        | other _ hNo => cases hNo
        | @login _ id' participants hNamed =>
          obtain rfl : id = id' := Except.ok.inj (hName.symm.trans hNamed)
          rw [TaquinSolver.legal_quiet_iff (by simp [emissions, stepOf, Request.emission])]
          exact ih (g := { g with participants, id }) hTail hBoards' hRest rfl
            (hTracks.congr rfl rfl)
      · simp
      · simp
    | other hOther =>
      rw [Served]
      · cases hPlays with
        | other _ _ _ hDoes =>
          rw [TaquinSolver.legal_quiet_iff (by simp [emissions, hDoes])]
          exact ih hTail hBoards' hRest hId hTracks
        | login | solve | ack | last => simpa using hOther _ _ rfl
      · simp
      · simp

/-- In any run of a program, from where it has no game under way: when the solves for it carry the
board that the other program sends, the steps that it sends are legal exactly if the server serves
it. -/
theorem legal_iff_served {sw : Bool} {nickname : Text} {lines : List Text} {globalEventId : ℕ}
    {P P' : Program Globals δ A Listener} {as₁ as₂ : List (Program.Action δ)}
    {calls₁ calls₂ : List (Call δ A Listener)} {arrivals : List (Arrival 2)}
    (hRun₁ : (main sw nickname lines globalEventId).run react as₁ = .ok (P, calls₁))
    (hStep : P.memory.step = 0) (hRun₂ : P.run react as₂ = .ok (P', calls₂))
    (hShown : Shown P.memory.id (Call.callbacks calls₂) arrivals)
    (hBoards : ∀ r, .solve r ∈ arrivals → tokens (rowMajor r.board) = matriz (!sw)) :
    ∃ outs, Program.reactions react P.memory (Call.callbacks calls₂) = .ok (P'.memory, outs) ∧
      played calls₂ = stepsOf outs ∧
      (Legal ⟨some P.memory.id, none⟩ (arrivals.zip (outs.map emissions)) ↔
        Served sw P.memory.id none arrivals) := by
  have hStart := (listening_main sw nickname lines globalEventId).run hRun₁
  obtain ⟨outs, hReactions, hPlayed⟩ := played_eq hStart hRun₂
  refine ⟨outs, hReactions, hPlayed, ?_⟩
  rw [← hStart.sw] at hBoards ⊢
  refine legal_iff_of_tracks hShown (fun r hr => ?_) hReactions rfl (.closed hStep)
  apply board_of_text Nat.two_pos
  rw [hBoards r hr, (game_solves P.memory.sw).1]

/-- A `solve` with the board of the other program, for the identity `a`. -/
def gameRequest (sw : Bool) : TaquinSolver.Request 2 where
  obj := [(keyId, ['a']), (keyMatriz, tokens (rowMajor (boardAt sw 0)))]
  addressee := ['a']
  board := boardAt sw 0
  solvable := reachable_symm (reachable_of_moves (game_solves sw).2)
  addressee_eq := rfl
  matriz_eq := rfl

/-- A program logs in as `a`, is asked to solve the board of the other one, hears a solve for `b`
without a board, and one acknowledgement. -/
def serving : List (Program.Action Empty) :=
  opening ++ [.packet (eventPacket .solve [.object [(keyId, .string ['a']),
    (keyMatriz, .string (matriz false))]]),
    .packet (eventPacket .solve [.object [(keyId, .string ['b']), (keyMatriz, .string [])]]),
    .packet (eventPacket .ackSolve [])]

theorem legal_iff_served_serving : ∃ (P : Program Globals Empty Empty Listener)
    (calls : List (Call Empty Empty Listener)) (outs : List (List (Request Empty Empty Listener))),
    (main true ['n'] [] 1).run react serving = .ok (P, calls) ∧ played calls = stepsOf outs ∧
    (Legal ⟨some [], none⟩ ([.start, .login [(keyId, ['a'])], .solve (gameRequest true), .start,
        .ack].zip (outs.map emissions)) ↔
      Served true [] none
        [.start, .login [(keyId, ['a'])], .solve (gameRequest true), .start, .ack]) := by
  have hRun : (main true ['n'] [] 1 : Program Globals Empty Empty Listener).run react serving =
      .ok (_, _) := rfl
  have hText : tokens (rowMajor (boardAt true 0)) = matriz false := (game_solves true).1
  have hStart : (main true ['n'] [] 1 : Program Globals Empty Empty Listener).run react [] =
      .ok (_, _) := rfl
  have hSolve : Shows ['a'] (.listener .solve ⟨['/'], Listener.solve.event,
      [.object [(keyId, .string ['a']), (keyMatriz, .string (matriz false))]], false⟩ :
        Callback Empty Empty Listener) (.solve (gameRequest true)) :=
    .solve rfl rfl (congrArg Except.ok hText.symm)
  obtain ⟨outs, -, hPlayed, hLegal⟩ := legal_iff_served hStart rfl hRun
    (.cons (.other (by rintro _ _ ⟨⟩)) (.cons (.login rfl) (.cons hSolve
      (.cons (.foreign (by rintro ⟨⟩)) (.cons .ack (.nil _)))))) (fun r hr => by
        simp only [List.mem_cons, List.not_mem_nil, or_false, reduceCtorEq, false_or,
          TaquinSolver.Arrival.solve.injEq] at hr
        rw [hr]
        exact hText)
  exact ⟨_, _, outs, hRun, hPlayed, hLegal⟩

end Console
