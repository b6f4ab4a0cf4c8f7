import TaquinSolver.Client
import TaquinSolver.Rendering
import TaquinSolver.Solver

/-! A client that solves a board.  With a finished graph at the index `size`, each acknowledgment
moves the client's `id` to its parent, and each answer is a step counter with the cell of the blank
of the board under `id`.  So the answers to any interleaving of acknowledgments and errors are the
moves of a shortest solution, in order, each as often as it is asked for. -/

namespace TaquinSolver

open Java Sliding Search Search.Bfs

variable {n : ℕ}

/-- The text of a step: its counter and the cell that the blank moves to. -/
def stepText (k : ℤ) (c : Cell n) : Text :=
  intToText k ++ ' ' :: intToText (c.1 : ℕ) ++ ' ' :: intToText (c.2 : ℕ)

/-- The text of a step determines the coordinates of its cell. -/
theorem eq_of_stepText {m : ℕ} {k k' : ℤ} {c : Cell n} {c' : Cell m}
    (h : stepText k c = stepText k' c') : (c.1 : ℕ) = c'.1 ∧ (c.2 : ℕ) = c'.2 := by
  have hSplit : ∀ (k : ℤ) (i j : ℕ),
      (intToText k ++ ' ' :: intToText (i : ℤ) ++ ' ' :: intToText (j : ℤ)).splitOn ' ' =
        [intToText k, intToText i, intToText j] := by
    intro k i j
    rw [List.append_assoc, List.cons_append,
      List.splitOn_append_cons_self_of_not_mem (space_not_mem_intToText k),
      List.splitOn_append_cons_self_of_not_mem (space_not_mem_intToText i),
      List.splitOn_eq_singleton (space_not_mem_intToText j)]
  have hParts := congrArg (fun s : Text => s.splitOn ' ') h
  simp only [stepText, hSplit, List.cons.injEq, intToText_natCast_inj, and_true] at hParts
  exact hParts.2

theorem stepText_inj {m : ℕ} {k : ℤ} {c : Cell n} {c' : Cell m} :
    stepText k c = stepText k c' ↔ (c.1 : ℕ) = c'.1 ∧ (c.2 : ℕ) = c'.2 := by
  constructor
  · exact eq_of_stepText
  · rintro ⟨h1, h2⟩
    rw [stepText, stepText, h1, h2]

/-- The cell of the blank of board `v`. -/
def blankOf (hn : 0 < n) (num : Discovery (Board n)) (v : ℕ) : Cell n :=
  blank hn (num.seen.getD v (goal n))

/-- The graph at the index `size` is the finished graph `g`, and `id` is the board `v`. -/
structure Working (hn : 0 < n) (num : Discovery (Board n)) (c : TaquinClient) (v : ℕ) : Prop where
  graph : ∃ g, listGet c.graphs c.size = .ok g ∧ Solved hn num g
  id : c.id = v
  bound : v < num.seen.length

section Working

variable {hn : 0 < n} {num : Discovery (Board n)} {c : TaquinClient} {v : ℕ}

theorem blankOf_eq {b : Board n} (hb : num.seen[v]? = some b) : blankOf hn num v = blank hn b := by
  rw [blankOf, List.getD_eq_getElem?_getD, hb]
  rfl

namespace Working

theorem stepReply_eq (h : Working hn num c v) :
    c.stepReply = .ok (stepText c.step (blankOf hn num v)) := by
  obtain ⟨g, hGraph, hg⟩ := h.graph
  have hb := List.getElem?_eq_getElem h.bound
  obtain ⟨nd, hnd, hRep⟩ := hg.node v _ hb
  rw [TaquinClient.stepReply, hGraph, Result.ok_bind, h.id, Graph.getBitSet,
    listGet_natCast.mpr hnd, Result.ok_bind, hRep.row, hRep.column, blankOf_eq hb]
  rfl

theorem parentId_eq (h : Working hn num c v) :
    c.parentId = .ok (parent num.parents v : ℕ) := by
  obtain ⟨g, hGraph, hg⟩ := h.graph
  rw [TaquinClient.parentId, hGraph, Result.ok_bind, h.id, hg.getParent_eq h.bound]

theorem move (h : Working hn num c v) {w : ℕ} (hw : w < num.seen.length) (k : ℤ) :
    Working hn num { c with id := w, step := k } w := ⟨h.graph, rfl, hw⟩

theorem parent_bound (h : Working hn num c v) : parent num.parents v < num.seen.length := by
  obtain ⟨g, -, hg⟩ := h.graph
  exact hg.complete.parent_below h.bound

/-- An acknowledgment moves on to the parent. -/
theorem handle_ack (h : Working hn num c v) :
    c.handle .ackSolve =
      ({ c with id := (parent num.parents v : ℕ), step := c.step + 1 },
        [.step (stepText (c.step + 1) (blankOf hn num (parent num.parents v)))]) := by
  rw [TaquinClient.handle, TaquinClient.solveNextStep, h.parentId_eq]
  simp only [TaquinClient.emit, (h.move h.parent_bound (c.step + 1)).stepReply_eq]

/-- An error changes nothing. -/
theorem handle_error (h : Working hn num c v) :
    c.handle .errorSolve = (c, [.step (stepText c.step (blankOf hn num v))]) := by
  simp only [TaquinClient.handle, TaquinClient.errorStep, TaquinClient.emit, h.stepReply_eq]

/-- After any acknowledgments and errors, `id` is as many parents away as there were
acknowledgments. -/
theorem after_eq (h : Working hn num c v) {es : List Event}
    (hes : ∀ e ∈ es, e = .ackSolve ∨ e = .errorSolve) :
    Working hn num (c.after es) ((parent num.parents)^[es.count .ackSolve] v) ∧
      c.after es = { c with
        id := ((parent num.parents)^[es.count .ackSolve] v : ℕ)
        step := c.step + es.count .ackSolve } := by
  induction es generalizing c v with
  | nil =>
    refine ⟨h, ?_⟩
    simp [TaquinClient.after, ← h.id]
  | cons e es ih =>
    have hRest : ∀ e ∈ es, e = .ackSolve ∨ e = .errorSolve := fun e he => hes e (by simp [he])
    rcases hes e (by simp) with rfl | rfl
    · obtain ⟨hWork, hEq⟩ := ih (h.move h.parent_bound (c.step + 1)) hRest
      rw [TaquinClient.after] at hWork hEq
      rw [TaquinClient.after, List.foldl_cons, h.handle_ack, List.count_cons_self,
        Function.iterate_succ_apply]
      refine ⟨hWork, ?_⟩
      rw [hEq]
      push_cast
      ring_nf
    · obtain ⟨hWork, hEq⟩ := ih h hRest
      rw [TaquinClient.after] at hWork hEq
      rw [TaquinClient.after, List.foldl_cons, h.handle_error,
        List.count_cons_of_ne (by decide)]
      exact ⟨hWork, hEq⟩

end Working

/-- `solveTaquin` moves on from the board that it finds to its parent. -/
theorem solveTaquin_of_findId {g : Graph} (hGraph : listGet c.graphs c.size = .ok g)
    (hg : Solved hn num g) {matriz : Text} (hFind : c.findId matriz = .ok v)
    (hv : v < num.seen.length) :
    Working hn num (c.solveTaquin matriz).1 (parent num.parents v) ∧
      c.solveTaquin matriz = ({ c with id := (parent num.parents v : ℕ), step := 1 },
        .ok (stepText 1 (blankOf hn num (parent num.parents v)))) := by
  have hStart : Working hn num { c with step := 1, id := (v : ℕ) } v :=
    ⟨⟨g, hGraph, hg⟩, rfl, hv⟩
  have hFind' : ({ c with step := 1 } : TaquinClient).findId matriz = .ok v := hFind
  have hEq : c.solveTaquin matriz = ({ c with id := (parent num.parents v : ℕ), step := 1 },
      .ok (stepText 1 (blankOf hn num (parent num.parents v)))) := by
    rw [TaquinClient.solveTaquin]
    simp only [hFind', hStart.parentId_eq]
    rw [(hStart.move hStart.parent_bound 1).stepReply_eq]
  rw [hEq]
  exact ⟨hStart.move hStart.parent_bound 1, rfl⟩

/-- `solveTaquin` finds the board of the text and answers with its first move. -/
theorem solveTaquin_eq (hn' : n ≤ 256) {g : Graph} (hGraph : listGet c.graphs c.size = .ok g)
    (hg : Solved hn num g) {b : Board n} (hb : num.seen[v]? = some b) :
    Working hn num (c.solveTaquin (tokens (rowMajor b))).1 (parent num.parents v) ∧
      c.solveTaquin (tokens (rowMajor b)) =
        ({ c with id := (parent num.parents v : ℕ), step := 1 },
          .ok (stepText 1 (blankOf hn num (parent num.parents v)))) := by
  obtain ⟨bs, hConvert, hShows⟩ := convert_rowMajor hn hn' b g.n
  refine solveTaquin_of_findId hGraph hg ?_ (List.getElem?_eq_some_iff.mp hb).1
  rw [TaquinClient.findId, hGraph, Result.ok_bind, Graph.getNbits, Graph.getSizeBS, hg.nbits,
    hg.sizeBS, hConvert, Result.ok_bind, getId_eq_ok]
  exact (hg.lookup_iff hShows).mpr ⟨v, rfl, hb⟩

end Working

/-! ### A session -/

/-- The cells of the blank along the parents of `v`, without the one of `v`. -/
def solutionCells (hn : 0 < n) (num : Discovery (Board n)) (v : ℕ) : List (Cell n) :=
  (List.range (level num.parents v)).map fun k => blankOf hn num ((parent num.parents)^[k + 1] v)

/-- A graph renders a packed board as the numbers of the board that it shows. -/
theorem Solved.bitSetToString_eq {hn : 0 < n} {num : Discovery (Board n)} {g : Graph}
    (hg : Solved hn num g) {bs : BitSet} {b : Board n} (h : Shows g.getNbits g.getSizeBS bs b) :
    Utils.bitSetToString g.n g.getNbits g.getSizeBS bs = .ok (tokens (rowMajor b)) := by
  rw [Graph.getNbits, Graph.getSizeBS, hg.nbits, hg.sizeBS] at h
  rw [Graph.getNbits, Graph.getSizeBS, hg.side, hg.nbits, hg.sizeBS]
  exact TaquinSolver.bitSetToString_eq hn h

theorem moves_solutionCells {hn : 0 < n} {num : Discovery (Board n)} {g : Graph}
    (hg : Solved hn num g) {v : ℕ} {b : Board n} (hb : num.seen[v]? = some b) :
    Moves b (solutionCells hn num v) (goal n) := by
  induction hLevel : level num.parents v generalizing v b with
  | zero =>
    have hvLt := (List.getElem?_eq_some_iff.mp hb).1
    obtain rfl := (hg.complete.level_eq_zero hvLt).mp hLevel
    rw [hg.complete.seen_zero] at hb
    cases hb
    rw [solutionCells, hLevel]
    exact .nil _
  | succ d ih =>
    have hvLt := (List.getElem?_eq_some_iff.mp hb).1
    have hv : v ≠ 0 := by
      intro h0
      rw [(hg.complete.level_eq_zero hvLt).mpr h0] at hLevel
      cases hLevel
    obtain ⟨c', hAdj, hParent, -⟩ := hg.move_parent hv hb
    have hNext := hg.complete.level_parent hvLt
    rw [hLevel, Nat.add_sub_cancel] at hNext
    have hTail := ih hParent hNext
    rw [solutionCells, hNext] at hTail
    rw [solutionCells, hLevel, List.range_succ_eq_map, List.map_cons, List.map_map]
    have hCell : blankOf hn num ((parent num.parents)^[0 + 1] v) = c' := by
      rw [Function.iterate_succ_apply, Function.iterate_zero_apply, blankOf_eq hParent, blank_slide]
    rw [hCell]
    exact .cons (isBlank_blank hn b) hAdj hTail

theorem getElem?_solutionCells {hn : 0 < n} {num : Discovery (Board n)} {v k : ℕ}
    (hk : k < level num.parents v) :
    (solutionCells hn num v)[k]? = some (blankOf hn num ((parent num.parents)^[k + 1] v)) := by
  rw [solutionCells, List.getElem?_map, List.getElem?_range hk]
  rfl

/-- The answers of a session are the moves of a shortest solution, whatever the interleaving of
acknowledgments and errors. -/
theorem session_solves (pq : PriorityQueue TripleComparator.compare) (n : ℕ) (hn : 2 ≤ n)
    (hn' : n ≤ 256) (g : Graph) (hNew : Graph.new pq n = .ok g) (c : TaquinClient)
    (hSize : c.size = n - 2) (hGraph : listGet c.graphs ((n : ℤ) - 2) = .ok g) (v : ℕ) (nd : Node)
    (hNode : g.getBitSet v = .ok nd) (b : Board n)
    (hBoard : Shows g.getNbits g.getSizeBS nd.taquinBS b) (matriz : Text)
    (hText : Utils.bitSetToString g.n g.getNbits g.getSizeBS nd.taquinBS = .ok matriz) (d : ℕ)
    (hd : IsDist Move b (goal n) d) (hd' : 1 ≤ d) :
    ∃ cells : List (Cell n), cells.length = d ∧ Moves b cells (goal n) ∧
      (∃ first, cells[0]? = some first ∧
        (c.solveTaquin matriz).2 = .ok (stepText 1 first)) ∧
      ∀ (es : List Event) (e : Event), (∀ e' ∈ es ++ [e], e' = .ackSolve ∨ e' = .errorSolve) →
        (es ++ [e]).count .ackSolve ≤ d - 1 →
        (∃ cell, cells[(es ++ [e]).count .ackSolve]? = some cell ∧
          (((c.solveTaquin matriz).1.after es).handle e).2 =
            [.step (stepText (1 + (es ++ [e]).count .ackSolve) cell)]) ∧
        (e = .errorSolve →
          (((c.solveTaquin matriz).1.after es).handle e).1 =
            (c.solveTaquin matriz).1.after es) := by
  have hPos : 0 < n := by omega
  obtain ⟨last, -, hg⟩ := solved_of_new hPos hn' hNew
  generalize numbering (next hPos) (goal n) last = num at hg
  have hv : num.seen[v]? = some b := hg.isBoard_iff.mp ⟨nd, hNode, hBoard⟩
  obtain rfl := ((isDist_level hg.complete hv).symm fun _ _ h => h.symm).unique hd
  obtain rfl := Except.ok.inj (hText.symm.trans (hg.bitSetToString_eq hBoard))
  rw [← hSize] at hGraph
  obtain ⟨hWork, hSolve⟩ := solveTaquin_eq hn' hGraph hg hv
  refine ⟨solutionCells hPos num v, by simp [solutionCells], moves_solutionCells hg hv,
    ⟨_, getElem?_solutionCells (by omega), by rw [hSolve]; rfl⟩, fun es e hes hCount => ?_⟩
  obtain ⟨hAfter, hEq⟩ := hWork.after_eq fun e' (he' : e' ∈ es) => hes e' (by simp [he'])
  rw [← Function.iterate_succ_apply] at hAfter
  have hStep : ((c.solveTaquin (tokens (rowMajor b))).1.after es).step =
      1 + (es.count .ackSolve : ℤ) := by
    rw [hEq, hSolve]
  have hCell : (solutionCells hPos num v)[(es ++ [e]).count .ackSolve]? = _ :=
    getElem?_solutionCells (by omega)
  refine ⟨⟨_, hCell, ?_⟩, ?_⟩
  · rcases hes e (by simp) with rfl | rfl
    · rw [hAfter.handle_ack, hStep]
      simp [Function.iterate_succ_apply', Int.add_assoc]
    · rw [hAfter.handle_error, hStep]
      simp
  · rintro rfl
    rw [hAfter.handle_error]

/-- The board 1 2 / 0 3, one move from the goal. -/
def lastMove : Board 2 := slide (goal 2) (1, 1) (1, 0)

example : rowMajor lastMove = [1, 2, 0, 3] := by decide

theorem isDist_lastMove : IsDist Move lastMove (goal 2) 1 := by
  have hMove : Move (goal 2) lastMove :=
    ⟨(1, 1), (1, 0), (isBlank_goal_iff _).mpr (by decide), by decide, rfl⟩
  refine ⟨.single hMove.symm, fun k hk => ?_⟩
  rcases Nat.eq_zero_or_pos k with rfl | hPos
  · have hEq := congrArg (fun b : Board 2 => b (1, 0)) (Steps.eq_of_zero hk)
    exact absurd hEq (by decide)
  · exact hPos

theorem solvable_lastMove : Solvable lastMove :=
  reachable_symm (reachable_iff.mpr ⟨1, isDist_lastMove.1⟩)

/-- The board 0 2 / 1 3, two moves from the goal. -/
def twoMoves : Board 2 := slide lastMove (1, 0) (0, 0)

theorem isDist_twoMoves : IsDist Move twoMoves (goal 2) 2 := by
  have hMove : Move lastMove twoMoves := ⟨(1, 0), (0, 0), rfl, by decide, rfl⟩
  refine ⟨isDist_lastMove.1.head hMove.symm, fun k hk => ?_⟩
  -- a move brings the blank nearer to its corner by one cell at most
  have hLabel : ∀ b b' : Board 2, Move b b' →
      cornerDist (blank (by decide) b') ≤ cornerDist (blank (by decide) b) + 1 := by
    rintro b _ ⟨c, c', hBlank, hAdjacent, rfl⟩
    have hCells : ∀ c c' : Cell 2, Adjacent c c' → cornerDist c' ≤ cornerDist c + 1 := by decide
    rw [blank_eq hBlank, blank_eq (hBlank.slide c')]
    exact hCells c c' hAdjacent
  have hFar := (hk.symm fun _ _ h => h.symm).le_label _ hLabel
  rw [blank_eq (c := (1, 1)) ((isBlank_goal_iff _).mpr (by decide)),
    blank_eq (b := twoMoves) (c := (0, 0)) rfl] at hFar
  exact hFar.trans (Nat.zero_add k).le

/-- The session of this board, with an acknowledgment and then an error. -/
theorem session_solves_twoMoves :
    ∃ (c : TaquinClient) (cells : List (Cell 2)), cells.length = 2 ∧
      Moves twoMoves cells (goal 2) ∧
      (∃ first, cells[0]? = some first ∧
        (c.solveTaquin (tokens (rowMajor twoMoves))).2 = .ok (stepText 1 first)) ∧
      (∃ cell, cells[1]? = some cell ∧
        (((c.solveTaquin (tokens (rowMajor twoMoves))).1.after []).handle .ackSolve).2 =
          [.step (stepText 2 cell)]) ∧
      ∃ cell, cells[1]? = some cell ∧
        (((c.solveTaquin (tokens (rowMajor twoMoves))).1.after [.ackSolve]).handle .errorSolve).2 =
          [.step (stepText 2 cell)] := by
  obtain ⟨_, _, _, -, -, -, -, hAll⟩ := new_solved (n := 2) (by decide) (by decide)
  obtain ⟨g, hNew, hg⟩ := hAll tripleQueue
  obtain ⟨v, hv, -⟩ := exists_level hg.complete isDist_twoMoves
  obtain ⟨nd, hNode, hBoard⟩ := hg.isBoard_iff.mpr hv
  obtain ⟨cells, hLength, hMoves, hFirst, hRest⟩ := session_solves tripleQueue 2 (by decide)
    (by decide) g hNew { connection := ⟨[], none⟩, step := 0, graphs := [g], size := 0, id := 0 }
    rfl rfl v nd hNode twoMoves hBoard _ (hg.bitSetToString_eq hBoard) 2 isDist_twoMoves (by decide)
  exact ⟨_, cells, hLength, hMoves, hFirst, (hRest [] .ackSolve (by decide) (by decide)).1,
    (hRest [.ackSolve] .errorSolve (by decide) (by decide)).1⟩

theorem blankOf_start {hn : 0 < n} {num : Discovery (Board n)} {g : Graph} (hg : Solved hn num g)
    {c : Cell n} (hc : cornerDist c = 0) : blankOf hn num 0 = c := by
  rw [blankOf_eq hg.complete.seen_zero]
  exact blank_eq ((isBlank_goal_iff c).mpr hc)

theorem solveTaquin_lastMove {hn : 0 < 2} {num : Discovery (Board 2)} {c : TaquinClient} {g : Graph}
    (hGraph : listGet c.graphs c.size = .ok g) (hg : Solved hn num g) :
    Working hn num { c with id := (0 : ℕ), step := 1 } 0 ∧
      c.solveTaquin (tokens (rowMajor lastMove)) =
        ({ c with id := (0 : ℕ), step := 1 }, .ok (stepText 1 ((1, 1) : Cell 2))) := by
  obtain ⟨v, hv, hLevel⟩ := exists_level hg.complete isDist_lastMove
  have hvLt := (List.getElem?_eq_some_iff.mp hv).1
  have hParent : parent num.parents v = 0 := by
    rw [← hg.complete.level_eq_zero (hg.complete.parent_below hvLt), hg.complete.level_parent hvLt,
      hLevel]
  obtain ⟨hWork, hEq⟩ := solveTaquin_eq (by decide) hGraph hg hv
  rw [hParent, blankOf_start hg (c := (1, 1)) (by decide)] at hEq
  rw [hParent, hEq] at hWork
  exact ⟨hWork, hEq⟩

/-! ### The board for the opponent -/

/-- `getTaquin` renders the board of the farthest node. -/
theorem getTaquin_eq {hn : 0 < n} {num : Discovery (Board n)} {g : Graph} (hg : Solved hn num g)
    {c : TaquinClient} {size : ℤ} (hGraph : listGet c.graphs (toInt (size - 2)) = .ok g) {f : ℕ}
    (hf : g.farthestNode = f) {b : Board n} (hb : num.seen[f]? = some b) :
    (c.getTaquin size).2 = .ok (tokens (rowMajor b)) := by
  obtain ⟨nd, hnd, hShows⟩ := hg.isBoard_iff.mpr hb
  simp only [TaquinClient.getTaquin]
  rw [hGraph, Result.ok_bind, hf, hnd, Result.ok_bind]
  exact hg.bitSetToString_eq hShows

/-- The board that `getTaquin` renders is one of the hardest. -/
theorem getTaquin_hardest (pq : PriorityQueue TripleComparator.compare) (n : ℕ) (hn : 2 ≤ n)
    (hn' : n ≤ 256) :
    ∃ (g : Graph) (f : ℕ) (b : Board n) (d : ℕ), Graph.new pq n = .ok g ∧ g.farthestNode = f ∧
      g.IsBoard f b ∧ Solvable b ∧ IsDist Move b (goal n) d ∧
      (∀ (b' : Board n) (e : ℕ), Solvable b' → IsDist Move b' (goal n) e → e ≤ d) ∧
      ∀ c : TaquinClient, listGet c.graphs ((n : ℤ) - 2) = .ok g →
        (c.getTaquin n).2 = .ok (tokens (rowMajor b)) := by
  have hPos : 0 < n := by omega
  obtain ⟨t, s, last, -, -, -, -, hSolved⟩ := new_solved hPos hn'
  obtain ⟨g, hNew, hg⟩ := hSolved pq
  obtain ⟨f, hf, hfLt, hMax⟩ := hg.farthest
  have hb := List.getElem?_eq_getElem hfLt
  have hDist := isDist_level hg.complete hb
  refine ⟨g, f, _, _, hNew, hf, hg.isBoard_iff.mpr hb, reachable_iff.mpr ⟨_, hDist.1⟩,
    hDist.symm fun _ _ h => h.symm, fun b' e _ he => ?_, fun c hGraph => ?_⟩
  · obtain ⟨v, hv, rfl⟩ := exists_level hg.complete he
    exact hMax v (List.getElem?_eq_some_iff.mp hv).1
  · rw [← toInt_of_range (x := (n : ℤ) - 2) (by omega) (by omega)] at hGraph
    exact getTaquin_eq hg hGraph hf hb

theorem getTaquin_hardest_two :
    ∃ (g : Graph) (f : ℕ) (b : Board 2) (d : ℕ), Graph.new tripleQueue (2 : ℕ) = .ok g ∧
      g.farthestNode = f ∧ g.IsBoard f b ∧ IsDist Move b (goal 2) d ∧
      ∀ (b' : Board 2) (e : ℕ), Solvable b' → IsDist Move b' (goal 2) e → e ≤ d := by
  obtain ⟨g, f, b, d, hNew, hf, hb, -, hd, hMax, -⟩ :=
    getTaquin_hardest tripleQueue 2 (by decide) (by decide)
  exact ⟨g, f, b, d, hNew, hf, hb, hd, hMax⟩

/-! ### The client that the constructor makes -/

/-- The graphs of a client are finished, each at the index of its size. -/
def Supplied (graphs : List Graph) : Prop :=
  ∀ (n : ℕ) (g : Graph), 2 ≤ n → listGet graphs ((n : ℤ) - 2) = .ok g →
    n ≤ 256 ∧ ∃ (hn : 0 < n) (num : Discovery (Board n)), Solved hn num g

theorem Supplied.solved {graphs : List Graph} (h : Supplied graphs) {size : ℤ} {g : Graph}
    (hGraph : listGet graphs size = .ok g) :
    ∃ n : ℕ, size = (n : ℤ) - 2 ∧ n ≤ 256 ∧ ∃ (hn : 0 < n) (num : Discovery (Board n)),
      Solved hn num g := by
  obtain ⟨k, rfl, -⟩ := listGet_eq_ok.mp hGraph
  have hSize : (k : ℤ) = ((k + 2 : ℕ) : ℤ) - 2 := by omega
  exact ⟨k + 2, hSize, h (k + 2) g (by omega) (hSize ▸ hGraph)⟩

theorem exists_new (pq : PriorityQueue TripleComparator.compare) (username : Text) :
    ∃ (c : TaquinClient) (g2 g3 : Graph), TaquinClient.new pq username = .ok c ∧
      c = { connection := ⟨username, none⟩, step := 0, graphs := [g2, g3], size := 0, id := 0 } ∧
      Graph.new pq (2 : ℕ) = .ok g2 ∧ Graph.new pq (3 : ℕ) = .ok g3 := by
  obtain ⟨_, _, _, -, -, -, -, h2⟩ := new_solved (n := 2) (by decide) (by decide)
  obtain ⟨_, _, _, -, -, -, -, h3⟩ := new_solved (n := 3) (by decide) (by decide)
  obtain ⟨g2, hNew2, -⟩ := h2 pq
  obtain ⟨g3, hNew3, -⟩ := h3 pq
  refine ⟨_, g2, g3, ?_, rfl, hNew2, hNew3⟩
  rw [Nat.cast_ofNat] at hNew2 hNew3
  simp [TaquinClient.new, List.mapM_cons, hNew2, hNew3]

theorem supplied_pair {pq : PriorityQueue TripleComparator.compare} {g2 g3 : Graph}
    (h2 : Graph.new pq (2 : ℕ) = .ok g2) (h3 : Graph.new pq (3 : ℕ) = .ok g3) :
    Supplied [g2, g3] := by
  intro n g hn hGet
  obtain ⟨k, hk, hg⟩ := listGet_eq_ok.mp hGet
  have hkLt := (List.getElem?_eq_some_iff.mp hg).1
  simp only [List.length_cons, List.length_nil] at hkLt
  obtain rfl | rfl : k = 0 ∨ k = 1 := by omega
  · obtain rfl : n = 2 := by omega
    cases hg
    obtain ⟨last, -, hSolved⟩ := solved_of_new (by decide) (by decide) h2
    exact ⟨by decide, _, _, hSolved⟩
  · obtain rfl : n = 3 := by omega
    cases hg
    obtain ⟨last, -, hSolved⟩ := solved_of_new (by decide) (by decide) h3
    exact ⟨by decide, _, _, hSolved⟩

/-- A client right after its construction. -/
theorem new_supplied {pq : PriorityQueue TripleComparator.compare} {username : Text}
    {c : TaquinClient} (hNew : TaquinClient.new pq username = .ok c) :
    c.id = 0 ∧ Supplied c.graphs := by
  obtain ⟨c', g2, g3, hNew', rfl, h2, h3⟩ := exists_new pq username
  obtain rfl := Except.ok.inj (hNew.symm.trans hNew')
  exact ⟨rfl, supplied_pair h2 h3⟩

end TaquinSolver
