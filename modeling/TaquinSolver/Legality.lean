import TaquinSolver.Session

/-! Which runs of a client are legal.  An `Observer` follows a run from outside: it knows the
client's identity, and in a session the current board with the board of the step that was proposed
last.  `Legal` says that each step that is sent belongs to a session whose board is not solved and
moves its blank to an adjacent cell.  The client does not keep to this by itself: it answers
`ack-solve` and `error-solve` without a session, and proposes to stay where the blank is when the
board is solved.  Its runs are legal exactly when the server asks for no such answer
(`legal_iff_admissible`). -/

namespace TaquinSolver

open Java Sliding Search Search.Bfs

variable {n : ℕ}

/-! ### Runs from outside -/

/-- A `solve` message, with its addressee and the solvable board of its text. -/
structure Request (n : ℕ) where
  obj : JSONObject
  addressee : Text
  board : Board n
  solvable : Solvable board
  addressee_eq : obj.getString ['i', 'd'] = some addressee
  matriz_eq : obj.getString ['m', 'a', 't', 'r', 'i', 'z'] = some (tokens (rowMajor board))

/-- What may arrive from the first solve on. -/
inductive Arrival (n : ℕ)
  | solve (r : Request n)
  | ack
  | error
  | connect
  | login (obj : JSONObject)
  | start
  | disconnect

def Arrival.event : Arrival n → Event
  | .solve r => .solve r.obj
  | .ack => .ackSolve
  | .error => .errorSolve
  | .connect => .connect
  | .login obj => .login obj
  | .start => .start
  | .disconnect => .disconnect

/-- The board after the moves acknowledged so far, and the board after the proposed step. -/
structure Session (n : ℕ) where
  current : Board n
  proposed : Option (Board n)

structure Observer (n : ℕ) where
  id : Option Text
  session : Option (Session n)

/-- An addressed solve opens a session, and an acknowledgment carries out the proposed step. -/
def Observer.receive (o : Observer n) : Arrival n → Observer n
  | .solve r => if o.id = some r.addressee then { o with session := some ⟨r.board, none⟩ } else o
  | .ack => { o with session := o.session.map fun s => ⟨s.proposed.getD s.current, none⟩ }
  | .login obj =>
    match obj.getString ['i', 'd'] with
    | some id => { o with id := some id }
    | none => o
  | _ => o

/-- Each step that is sent moves the blank of an unsolved current board to an adjacent cell. -/
inductive Legal : Observer n → List (Arrival n × List Emission) → Prop
  | nil (o : Observer n) : Legal o []
  | quiet {o : Observer n} {a : Arrival n} {out : List Emission}
      {rest : List (Arrival n × List Emission)} : (∀ s, .step s ∉ out) → Legal (o.receive a) rest →
      Legal o ((a, out) :: rest)
  | step {o : Observer n} {a : Arrival n} {k : ℤ} {b : Board n} {p : Option (Board n)}
      {c c' : Cell n} {rest : List (Arrival n × List Emission)} :
      (o.receive a).session = some ⟨b, p⟩ → b ≠ goal n → IsBlank b c → Adjacent c c' →
      Legal { o.receive a with session := some ⟨b, some (slide b c c')⟩ } rest →
      Legal o ((a, [.step (stepText k c')]) :: rest)

/-- Every addressed solve carries an unsolved board, acknowledgments and errors come in a session,
and `left`, the number of moves that the current board needs, stays positive. -/
def Admissible (id : Option Text) (left : Option ℕ) : List (Arrival n) → Prop
  | [] => True
  | .solve r :: as =>
    if id = some r.addressee then
      r.board ≠ goal n ∧ Admissible id (some (dist Move r.board (goal n))) as
    else Admissible id left as
  | .ack :: as => ∃ k, left = some (k + 2) ∧ Admissible id (some (k + 1)) as
  | .error :: as => left.isSome ∧ Admissible id left as
  | .login obj :: as => Admissible ((obj.getString ['i', 'd']).or id) left as
  | .connect :: as | .start :: as | .disconnect :: as => Admissible id left as

/-! ### One answer -/

section Answer

variable {o : Observer n} {a : Arrival n} {rest : List (Arrival n × List Emission)}

theorem legal_quiet_iff {out : List Emission} (h : ∀ s, .step s ∉ out) :
    Legal o ((a, out) :: rest) ↔ Legal (o.receive a) rest := by
  constructor
  · intro hLegal
    cases hLegal with
    | quiet _ hRest => exact hRest
    | step => exact absurd (List.mem_singleton_self _) (h _)
  · exact .quiet h

theorem not_legal_of_none {s : Text} (h : (o.receive a).session = none) :
    ¬Legal o ((a, [.step s]) :: rest) := by
  intro hLegal
  cases hLegal with
  | quiet hOut _ => exact hOut s (List.mem_singleton_self _)
  | step hSession =>
    rw [h] at hSession
    cases hSession

theorem not_legal_of_goal {s : Text} {p : Option (Board n)}
    (h : (o.receive a).session = some ⟨goal n, p⟩) : ¬Legal o ((a, [.step s]) :: rest) := by
  intro hLegal
  cases hLegal with
  | quiet hOut _ => exact hOut s (List.mem_singleton_self _)
  | step hSession hne =>
    rw [h] at hSession
    cases hSession
    exact hne rfl

/-- The step to the parent is legal, and proposes the board of the parent. -/
theorem legal_step_iff {hn : 0 < n} {num : Discovery (Board n)} {g : Graph}
    (hg : Solved hn num g) {v : ℕ} (hv : v ≠ 0) {b b' : Board n} {p : Option (Board n)} {k : ℤ}
    (hb : num.seen[v]? = some b) (hb' : num.seen[parent num.parents v]? = some b')
    (hSession : (o.receive a).session = some ⟨b, p⟩) :
    Legal o ((a, [.step (stepText k (blankOf hn num (parent num.parents v)))]) :: rest) ↔
      Legal { o.receive a with session := some ⟨b, some b'⟩ } rest := by
  obtain ⟨c', hAdj, hParent, -⟩ := hg.move_parent hv hb
  obtain rfl : slide b (blank hn b) c' = b' := Option.some.inj (hParent.symm.trans hb')
  rw [blankOf_eq hb', blank_slide]
  constructor
  · intro hLegal
    generalize hText : stepText k c' = s at hLegal
    cases hLegal with
    | quiet hOut _ => exact absurd (List.mem_singleton_self _) (hOut s)
    | step hSession' hne hBlank hAdj' hRest =>
      rw [hSession] at hSession'
      cases hSession'
      obtain ⟨h1, h2⟩ := eq_of_stepText hText
      rw [blank_eq hBlank, Prod.ext (Fin.ext h1) (Fin.ext h2)]
      exact hRest
  · intro hRest
    have hne : b ≠ goal n := by
      rintro rfl
      exact hv (hg.complete.index_unique hb hg.complete.seen_zero)
    exact .step hSession hne (isBlank_blank hn b) hAdj hRest

end Answer

/-! ### Runs with a graph of the current size -/

/-- How the client's `id` relates to the observed session: without a session it is the goal, and in
a session it is the parent of the current board. -/
inductive Tracks (hn : 0 < n) (num : Discovery (Board n)) (c : TaquinClient) :
    Option (Session n) → Option ℕ → Prop
  | closed : Working hn num c 0 → Tracks hn num c none none
  | opened {v : ℕ} {b b' : Board n} : v ≠ 0 → num.seen[v]? = some b →
      num.seen[parent num.parents v]? = some b' → Working hn num c (parent num.parents v) →
      Tracks hn num c (some ⟨b, some b'⟩) (some (level num.parents v))

/-- The identity plays no part. -/
theorem Tracks.connection {hn : 0 < n} {num : Discovery (Board n)} {c : TaquinClient}
    {session : Option (Session n)} {left : Option ℕ} (h : Tracks hn num c session left)
    (connection : ConnectionServerSocketIO) :
    Tracks hn num { c with connection } session left := by
  cases h with
  | closed hWork => exact .closed ⟨hWork.graph, hWork.id, hWork.bound⟩
  | opened hv hb hb' hWork => exact .opened hv hb hb' ⟨hWork.graph, hWork.id, hWork.bound⟩

theorem handle_solve {c : TaquinClient} (r : Request n) :
    c.handle (.solve r.obj) = if c.connection.id = some r.addressee then
      TaquinClient.emit .step (c.solveTaquin (tokens (rowMajor r.board))) else (c, []) := by
  simp only [TaquinClient.handle, r.addressee_eq, r.matriz_eq]

section Tracks

variable {hn : 0 < n} {num : Discovery (Board n)} {c : TaquinClient} {o : Observer n}
  {left : Option ℕ}

theorem Tracks.graph {session : Option (Session n)} (h : Tracks hn num c session left) :
    ∃ g, listGet c.graphs c.size = .ok g ∧ Solved hn num g := by
  cases h with
  | closed hWork => exact hWork.graph
  | opened _ _ _ hWork => exact hWork.graph

/-- The answer to an addressed solve is legal when the board is not solved yet. -/
theorem legal_solve (hn' : n ≤ 256) (h : Tracks hn num c o.session left) {r : Request n}
    (hMine : o.id = some r.addressee) :
    ∃ c' out, TaquinClient.emit .step (c.solveTaquin (tokens (rowMajor r.board))) = (c', out) ∧
      c'.connection = c.connection ∧
      ((r.board = goal n ∧ ∀ rest, ¬Legal o ((.solve r, out) :: rest)) ∨
        (r.board ≠ goal n ∧ ∃ session,
          Tracks hn num c' session (some (dist Move r.board (goal n))) ∧
          ∀ rest, Legal o ((.solve r, out) :: rest) ↔ Legal ⟨o.id, session⟩ rest)) := by
  obtain ⟨g, hGraph, hg⟩ := h.graph
  obtain ⟨v, hv, hDist⟩ := exists_level hg.complete (isDist_dist (reachable_symm r.solvable))
  obtain ⟨hWork, hEq⟩ := solveTaquin_eq hn' hGraph hg hv
  rw [hEq] at hWork
  rw [hEq]
  refine ⟨_, _, rfl, rfl, ?_⟩
  have hReceive : o.receive (.solve r) = ⟨o.id, some ⟨r.board, none⟩⟩ := by
    rw [Observer.receive, if_pos hMine]
  by_cases hGoal : r.board = goal n
  · refine .inl ⟨hGoal, fun rest => ?_⟩
    apply not_legal_of_goal (p := none)
    rw [hReceive, hGoal]
  · have hv0 : v ≠ 0 := by
      rintro rfl
      rw [hg.complete.seen_zero] at hv
      exact hGoal (Option.some.inj hv).symm
    have hb' := List.getElem?_eq_getElem hWork.bound
    rw [← hDist]
    refine .inr ⟨hGoal, _, .opened hv0 hv hb' hWork, fun rest => ?_⟩
    rw [legal_step_iff hg hv0 hv hb' (by rw [hReceive]), hReceive]

/-- The answer to an acknowledgment is legal when the board needs another move after it. -/
theorem legal_ack (h : Tracks hn num c o.session left) :
    ∃ c' out, c.handle .ackSolve = (c', out) ∧ c'.connection = c.connection ∧
      (((∀ k, left ≠ some (k + 2)) ∧ ∀ rest, ¬Legal o ((.ack, out) :: rest)) ∨
        ∃ k session, left = some (k + 2) ∧ Tracks hn num c' session (some (k + 1)) ∧
          ∀ rest, Legal o ((.ack, out) :: rest) ↔ Legal ⟨o.id, session⟩ rest) := by
  obtain ⟨id, session⟩ := o
  cases h with
  | closed hWork =>
    refine ⟨_, _, hWork.handle_ack, rfl, .inl ⟨fun k hk => ?_, fun rest => not_legal_of_none rfl⟩⟩
    cases hk
  | @opened v b b' hv hb hb' hWork =>
    obtain ⟨g, -, hg⟩ := hWork.graph
    have hvLt := (List.getElem?_eq_some_iff.mp hb).1
    have hLevel := hg.complete.level_parent hvLt
    have hZero := hg.complete.level_eq_zero hWork.bound
    refine ⟨_, _, hWork.handle_ack, rfl, ?_⟩
    by_cases hLast : parent num.parents v = 0
    · left
      constructor
      · intro k hk
        have := Option.some.inj hk
        rw [hLast, level_zero] at hLevel
        omega
      · have hGoal : b' = goal n := by
          rw [hLast, hg.complete.seen_zero] at hb'
          exact (Option.some.inj hb').symm
        intro rest
        apply not_legal_of_goal (p := none)
        rw [← hGoal]
        rfl
    · right
      have hb'' := List.getElem?_eq_getElem hWork.parent_bound
      have hNext := hWork.move hWork.parent_bound (c.step + 1)
      have hTracks := Tracks.opened hLast hb' hb'' hNext
      rw [show level num.parents (parent num.parents v) = level num.parents v - 2 + 1 by omega]
        at hTracks
      refine ⟨level num.parents v - 2, _, ?_, hTracks, fun rest => ?_⟩
      · rw [Option.some.injEq]
        omega
      · exact legal_step_iff hg hLast hb' hb'' (p := none) rfl

/-- The answer to an error is legal in a session. -/
theorem legal_error (h : Tracks hn num c o.session left) :
    ∃ out, c.handle .errorSolve = (c, out) ∧
      ((left = none ∧ ∀ rest, ¬Legal o ((.error, out) :: rest)) ∨
        (left.isSome ∧ ∀ rest, Legal o ((.error, out) :: rest) ↔ Legal o rest)) := by
  obtain ⟨id, session⟩ := o
  cases h with
  | closed hWork => exact ⟨_, hWork.handle_error, .inl ⟨rfl, fun rest => not_legal_of_none rfl⟩⟩
  | @opened v b b' hv hb hb' hWork =>
    obtain ⟨g, -, hg⟩ := hWork.graph
    exact ⟨_, hWork.handle_error,
      .inr ⟨rfl, fun rest => legal_step_iff hg hv hb hb' (p := some b') rfl⟩⟩

/-- With a graph of the current size, runs are legal when they are admissible, and only then. -/
theorem legal_iff_of_tracks (hn' : n ≤ 256) (as : List (Arrival n)) (hId : o.id = c.connection.id)
    (h : Tracks hn num c o.session left) :
    Legal o (as.zip (c.answers (as.map Arrival.event))) ↔ Admissible o.id left as := by
  induction as generalizing c o left with
  | nil => exact iff_of_true (.nil o) trivial
  | cons a as ih =>
    rw [List.map_cons, TaquinClient.answers, List.zip_cons_cons]
    cases a with
    | solve r =>
      rw [Arrival.event, handle_solve, Admissible]
      by_cases hMine : o.id = some r.addressee
      · obtain ⟨c', out, hEmit, hSame, ⟨hGoal, hIllegal⟩ | ⟨hGoal, session, hTracks, hRest⟩⟩ :=
          legal_solve hn' h hMine
        · rw [if_pos (hId ▸ hMine), if_pos hMine, hEmit]
          exact iff_of_false (hIllegal _) fun hAdm => hAdm.1 hGoal
        · rw [if_pos (hId ▸ hMine), if_pos hMine, hEmit, hRest, and_iff_right hGoal]
          exact ih (o := ⟨o.id, session⟩) (hSame ▸ hId) hTracks
      · rw [if_neg (hId ▸ hMine), if_neg hMine, legal_quiet_iff (by simp), Observer.receive,
          if_neg hMine]
        exact ih hId h
    | ack =>
      rw [Arrival.event, Admissible]
      obtain ⟨c', out, hHandle, hSame, ⟨hLeft, hIllegal⟩ | ⟨k, session, rfl, hTracks, hRest⟩⟩ :=
        legal_ack h
      · rw [hHandle]
        apply iff_of_false (hIllegal _)
        rintro ⟨k, hk, -⟩
        exact hLeft k hk
      · rw [hHandle, hRest, ih (o := ⟨o.id, session⟩) (hSame ▸ hId) hTracks]
        constructor
        · exact fun hAdm => ⟨k, rfl, hAdm⟩
        · rintro ⟨j, hj, hAdm⟩
          obtain rfl : k = j := by simpa using hj
          exact hAdm
    | error =>
      rw [Arrival.event, Admissible]
      obtain ⟨out, hHandle, ⟨rfl, hIllegal⟩ | ⟨hLeft, hRest⟩⟩ := legal_error h
      · rw [hHandle]
        exact iff_of_false (hIllegal _) fun hAdm => absurd hAdm.1 (by decide)
      · rw [hHandle, hRest, and_iff_right hLeft]
        exact ih hId h
    | login obj =>
      rw [Arrival.event, TaquinClient.handle, Admissible]
      cases hObj : obj.getString ['i', 'd'] with
      | none =>
        rw [legal_quiet_iff (by simp), Observer.receive, hObj]
        exact ih hId h
      | some id =>
        rw [legal_quiet_iff (by simp), Observer.receive, hObj]
        exact ih (o := { o with id := some id }) rfl (h.connection _)
    | connect | start | disconnect =>
      exact (legal_quiet_iff (by simp [Arrival.event, TaquinClient.handle])).trans (ih hId h)

end Tracks

/-! ### Whole runs -/

/-- The client has no graph of its current size. -/
def TaquinClient.NoGraph (c : TaquinClient) : Prop := ∀ g, listGet c.graphs c.size ≠ .ok g

def Event.isSolve : Event → Bool
  | .solve _ => true
  | _ => false

/-- Before the first solve, acknowledgments and errors come only while the client has no graph of
its current size. -/
def QuietBefore (c : TaquinClient) : List Event → Prop
  | [] => True
  | e :: es => (e = .ackSolve ∨ e = .errorSolve → c.NoGraph) ∧ QuietBefore (c.handle e).1 es

namespace TaquinClient.NoGraph

variable {c : TaquinClient}

theorem exists_error (h : c.NoGraph) : ∃ e, listGet c.graphs c.size = .error e := by
  cases hGet : listGet c.graphs c.size with
  | ok g => exact absurd hGet (h g)
  | error e => exact ⟨e, rfl⟩

theorem handle_ack (h : c.NoGraph) : c.handle .ackSolve = (c, []) := by
  obtain ⟨e, he⟩ := h.exists_error
  have hParent : c.parentId = .error e := by rw [TaquinClient.parentId, he, Result.error_bind]
  simp only [TaquinClient.handle, TaquinClient.solveNextStep, hParent, TaquinClient.emit]

theorem handle_error (h : c.NoGraph) : c.handle .errorSolve = (c, []) := by
  obtain ⟨e, he⟩ := h.exists_error
  have hReply : c.stepReply = .error e := by rw [TaquinClient.stepReply, he, Result.error_bind]
  simp only [TaquinClient.handle, TaquinClient.errorStep, hReply, TaquinClient.emit]

theorem solveTaquin_eq (h : c.NoGraph) (matriz : Text) :
    ∃ e, c.solveTaquin matriz = ({ c with step := 1 }, .error e) := by
  obtain ⟨e, he⟩ := h.exists_error
  have hFind : ({ c with step := 1 } : TaquinClient).findId matriz = .error e := by
    rw [TaquinClient.findId]
    simp only
    rw [he, Result.error_bind]
  exact ⟨e, by simp only [TaquinClient.solveTaquin, hFind]⟩

/-- Without a graph nothing is sent, so every run is legal. -/
theorem legal (h : c.NoGraph) (as : List (Arrival n)) (o : Observer n) :
    Legal o (as.zip (c.answers (as.map Arrival.event))) := by
  induction as generalizing c o with
  | nil => exact .nil o
  | cons a as ih =>
    rw [List.map_cons, TaquinClient.answers, List.zip_cons_cons]
    have hStep : (∀ s, .step s ∉ (c.handle a.event).2) ∧ (c.handle a.event).1.NoGraph := by
      cases a with
      | solve r =>
        rw [Arrival.event, handle_solve]
        split
        · obtain ⟨e, hEq⟩ := h.solveTaquin_eq (tokens (rowMajor r.board))
          rw [hEq]
          exact ⟨by simp [TaquinClient.emit], h⟩
        · exact ⟨by simp, h⟩
      | ack =>
        rw [Arrival.event, h.handle_ack]
        exact ⟨by simp, h⟩
      | error =>
        rw [Arrival.event, h.handle_error]
        exact ⟨by simp, h⟩
      | login obj =>
        rw [Arrival.event, TaquinClient.handle]
        split
        · exact ⟨by simp, h⟩
        · exact ⟨by simp, h⟩
      | connect | start | disconnect =>
        exact ⟨by simp [Arrival.event, TaquinClient.handle], h⟩
    exact .quiet hStep.1 (ih hStep.2 _)

end TaquinClient.NoGraph

/-- With a graph of the current size, a client whose `id` is 0 works on the goal. -/
theorem working_goal {c : TaquinClient} (h : Supplied c.graphs) (hId : c.id = 0) {g : Graph}
    (hGraph : listGet c.graphs c.size = .ok g) :
    ∃ n : ℕ, c.size = (n : ℤ) - 2 ∧ n ≤ 256 ∧ ∃ (hn : 0 < n) (num : Discovery (Board n)),
      Working hn num c 0 := by
  obtain ⟨n, hSize, hBound, hn, num, hg⟩ := h.solved hGraph
  exact ⟨n, hSize, hBound, hn, num, ⟨g, hGraph, hg⟩, hId,
    (List.getElem?_eq_some_iff.mp hg.complete.seen_zero).1⟩

theorem not_noGraph {c : TaquinClient} (h : ¬c.NoGraph) :
    ∃ g, listGet c.graphs c.size = .ok g := by
  simpa [TaquinClient.NoGraph] using h

/-- Before the first solve an event leaves the client at the goal, and is answered by a step when it
asks for one and there is a graph of the current size. -/
theorem handle_before_solve {c : TaquinClient} (h : Supplied c.graphs) (hId : c.id = 0)
    (e : Event) (he : e.isSolve = false) :
    ((∀ s, .step s ∉ (c.handle e).2) ↔ (e = .ackSolve ∨ e = .errorSolve → c.NoGraph)) ∧
      (c.handle e).1.id = 0 ∧ Supplied (c.handle e).1.graphs := by
  cases e with
  | solve obj => cases he
  | ackSolve =>
    by_cases hNo : c.NoGraph
    · rw [hNo.handle_ack]
      exact ⟨iff_of_true (by simp) fun _ => hNo, hId, h⟩
    · obtain ⟨g, hGraph⟩ := not_noGraph hNo
      obtain ⟨n, -, -, hn, num, hWork⟩ := working_goal h hId hGraph
      obtain ⟨g', -, hg⟩ := hWork.graph
      rw [hWork.handle_ack, hg.complete.parent_start]
      exact ⟨iff_of_false (by simp) fun hAll => hNo (hAll (.inl rfl)), rfl, h⟩
  | errorSolve =>
    by_cases hNo : c.NoGraph
    · rw [hNo.handle_error]
      exact ⟨iff_of_true (by simp) fun _ => hNo, hId, h⟩
    · obtain ⟨g, hGraph⟩ := not_noGraph hNo
      obtain ⟨n, -, -, hn, num, hWork⟩ := working_goal h hId hGraph
      rw [hWork.handle_error]
      exact ⟨iff_of_false (by simp) fun hAll => hNo (hAll (.inr rfl)), hId, h⟩
  | getMatriz obj =>
    simp only [TaquinClient.handle]
    split
    · split
      · simp only [TaquinClient.emit, TaquinClient.getTaquin]
        split
        · exact ⟨iff_of_true (by simp) (by simp), hId, h⟩
        · exact ⟨iff_of_true (by simp) (by simp), hId, h⟩
      · exact ⟨iff_of_true (by simp) (by simp), hId, h⟩
    · exact ⟨iff_of_true (by simp) (by simp), hId, h⟩
  | login obj =>
    simp only [TaquinClient.handle]
    split
    · exact ⟨iff_of_true (by simp) (by simp), hId, h⟩
    · exact ⟨iff_of_true (by simp) (by simp), hId, h⟩
  | connect | start | disconnect =>
    exact ⟨iff_of_true (by simp [TaquinClient.handle]) (by simp), hId, h⟩

theorem quietBefore_iff {c : TaquinClient} (h : Supplied c.graphs) (hId : c.id = 0)
    {es : List Event} (hes : ∀ e ∈ es, e.isSolve = false) :
    ((∀ out ∈ c.answers es, ∀ s, .step s ∉ out) ↔ QuietBefore c es) ∧
      (c.after es).id = 0 ∧ Supplied (c.after es).graphs := by
  induction es generalizing c with
  | nil => exact ⟨iff_of_true (by simp [TaquinClient.answers]) trivial, hId, h⟩
  | cons e es ih =>
    obtain ⟨hIff, hId', h'⟩ := handle_before_solve h hId e (hes e (by simp))
    obtain ⟨hIff', hLast⟩ := ih h' hId' fun e he => hes e (by simp [he])
    refine ⟨?_, hLast⟩
    rw [TaquinClient.answers, List.forall_mem_cons, QuietBefore, hIff, hIff']

/-- The client sends legal steps only, exactly in the runs whose solves, acknowledgments and errors
ask for no other ones. -/
theorem legal_iff_admissible (pq : PriorityQueue TripleComparator.compare) (username : Text)
    (c0 : TaquinClient) (hNew : TaquinClient.new pq username = .ok c0) (setup : List Event)
    (hSetup : ∀ e ∈ setup, e.isSolve = false) (n : ℕ)
    (hSize : ((c0.after setup).size + 2).toNat = n) (as : List (Arrival n)) :
    ((∀ out ∈ c0.answers setup, ∀ s, .step s ∉ out) ∧
        Legal ⟨(c0.after setup).connection.id, none⟩
          (as.zip ((c0.after setup).answers (as.map Arrival.event)))) ↔
      QuietBefore c0 setup ∧
        ((c0.after setup).NoGraph ∨ Admissible (c0.after setup).connection.id none as) := by
  obtain ⟨hId, h⟩ := new_supplied hNew
  obtain ⟨hQuiet, hId', h'⟩ := quietBefore_iff h hId hSetup
  rw [hQuiet]
  refine and_congr_right fun _ => ?_
  by_cases hNo : (c0.after setup).NoGraph
  · exact iff_of_true (hNo.legal as _) (.inl hNo)
  · rw [or_iff_right hNo]
    obtain ⟨g, hGraph⟩ := not_noGraph hNo
    obtain ⟨m, hm, hBound, hn, num, hWork⟩ := working_goal h' hId' hGraph
    obtain rfl : m = n := by omega
    exact legal_iff_of_tracks hBound as rfl (.closed hWork)

/-- A solve of `lastMove`, for the client with the identity `a`. -/
def lastRequest : Request 2 where
  obj := [(['i', 'd'], ['a']),
    (['m', 'a', 't', 'r', 'i', 'z'], tokens (rowMajor lastMove))]
  addressee := ['a']
  board := lastMove
  solvable := solvable_lastMove
  addressee_eq := rfl
  matriz_eq := rfl

theorem answers_lastRequest {hn : 0 < 2} {num : Discovery (Board 2)} {c : TaquinClient} {g : Graph}
    (hId : c.connection.id = some lastRequest.addressee)
    (hGraph : listGet c.graphs c.size = .ok g) (hg : Solved hn num g) :
    c.answers [.solve lastRequest.obj, .ackSolve] =
      [[.step (stepText 1 ((1, 1) : Cell 2))], [.step (stepText 2 ((1, 1) : Cell 2))]] := by
  obtain ⟨hWork, hEq⟩ := solveTaquin_lastMove hGraph hg
  have hAck := hWork.handle_ack
  rw [hg.complete.parent_start, blankOf_start hg (c := (1, 1)) (by decide)] at hAck
  rw [TaquinClient.answers, handle_solve, if_pos hId, show lastRequest.board = lastMove from rfl,
    hEq, TaquinClient.emit, TaquinClient.answers, hAck]
  rfl

/-- The only move of `lastMove` is acknowledged, and the client proposes to stay at the goal. -/
theorem spurious_step_at_goal :
    ∃ c0 c : TaquinClient, TaquinClient.new tripleQueue [] = .ok c0 ∧
      c = c0.after [.login [(['i', 'd'], ['a'])]] ∧
      c.answers [.solve lastRequest.obj, .ackSolve] =
        [[.step (stepText 1 ((1, 1) : Cell 2))], [.step (stepText 2 ((1, 1) : Cell 2))]] ∧
      ¬Legal ⟨c.connection.id, none⟩
        ([.solve lastRequest, .ack].zip (c.answers [.solve lastRequest.obj, .ackSolve])) := by
  obtain ⟨c0, g2, g3, hNew, rfl, h2, -⟩ := exists_new tripleQueue []
  obtain ⟨last, -, hg⟩ := solved_of_new (by decide) (by decide) h2
  have hStart := (List.getElem?_eq_some_iff.mp hg.complete.seen_zero).1
  refine ⟨_, _, hNew, rfl, answers_lastRequest rfl rfl hg, fun hLegal => ?_⟩
  have hAdm := (legal_iff_of_tracks (by decide) [.solve lastRequest, .ack] rfl
    (.closed ⟨⟨g2, rfl, hg⟩, rfl, hStart⟩)).mp hLegal
  obtain ⟨-, k, hk, -⟩ := hAdm
  have hDist := (isDist_dist (reachable_symm solvable_lastMove)).unique isDist_lastMove
  have := Option.some.inj hk
  rw [show lastRequest.board = lastMove from rfl, hDist] at this
  omega

/-- A run whose acknowledgments stop in time. -/
theorem legal_iff_admissible_lastMove :
    ∃ c0, TaquinClient.new tripleQueue [] = .ok c0 ∧
      (((∀ out ∈ c0.answers [.login [(['i', 'd'], ['a'])]], ∀ s, .step s ∉ out) ∧
          Legal ⟨(c0.after [.login [(['i', 'd'], ['a'])]]).connection.id, none⟩
            ([.solve lastRequest, .error].zip ((c0.after [.login [(['i', 'd'], ['a'])]]).answers
              ([Arrival.solve lastRequest, .error].map Arrival.event)))) ↔
        QuietBefore c0 [.login [(['i', 'd'], ['a'])]] ∧
          ((c0.after [.login [(['i', 'd'], ['a'])]]).NoGraph ∨
            Admissible (c0.after [.login [(['i', 'd'], ['a'])]]).connection.id none
              [.solve lastRequest, .error])) := by
  obtain ⟨c0, g2, g3, hNew, rfl, -, -⟩ := exists_new tripleQueue []
  exact ⟨_, hNew, legal_iff_admissible tripleQueue [] _ hNew [.login [(['i', 'd'], ['a'])]]
    (by decide) 2 rfl [.solve lastRequest, .error]⟩

end TaquinSolver
