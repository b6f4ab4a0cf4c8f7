import TaquinSolver.Session

/-! What a request for a board does to a running solve.  `getTaquin` stores the requested size in
the field by which the solving methods choose their graph, so after a request for the other size
they look the current number up in a graph where it is another board.  The answers stay the same
only at the numbers 9 and 10, where the blanks of both graphs happen to be in the same cells, and
for one acknowledgment at most (`undisturbed_iff`). -/

namespace TaquinSolver

open Java Sliding Search Search.Bfs

variable {n : ℕ}

/-! ### The first boards of the two graphs -/

/-- The cells of the blanks and the first neighbours of the boards that `creatGraph` finds in `j`
iterations. -/
def Graph.stage (n : Int) (j : ℕ) : Result (List (Int × Int) × List (Option Int)) := do
  let t ← Taquin.new n
  let s ← startBuild (empty n t)
  let s ← repeatBody expandNode j s
  return (s.graph.reverseIds.map fun nd => (nd.iPuzzle, nd.jPuzzle), s.graph.graph.map List.head?)

theorem nonempty_of_expandNode {s s' : Graph.Build} (h : Graph.expandNode s = .ok s') :
    Graph.nonempty s = true := by
  cases hQueue : s.queue with
  | nil =>
    rw [Graph.expandNode, hQueue] at h
    cases h
  | cons triple queue => simp [Graph.nonempty, hQueue]

/-- What `creatGraph` has found at some iteration is there at the end. -/
theorem stage_eq {hn : 0 < n} (hn' : n ≤ 256) {last j : ℕ}
    (hLast : (numbering (next hn) (goal n) last).seen.length = last)
    {cells : List (Int × Int)} {firsts : List (Option Int)}
    (hStage : Graph.stage n j = .ok (cells, firsts)) :
    (numbering (next hn) (goal n) j).seen.length = cells.length ∧
      ∀ v < cells.length, v < last ∧
        cells[v]? = some
          ((((blankOf hn (numbering (next hn) (goal n) last) v).1 : ℕ) : ℤ),
            (((blankOf hn (numbering (next hn) (goal n) last) v).2 : ℕ) : ℤ)) ∧
        (v ≠ 0 → firsts[v]? =
          some (some (parent (numbering (next hn) (goal n) last).parents v : ℤ))) := by
  obtain ⟨t, s, -, hNew, hStart, hs, -⟩ := new_solved hn hn'
  rw [Graph.stage, hNew, Result.ok_bind, hStart, Result.ok_bind] at hStage
  obtain ⟨r, hRun, hResult⟩ := Result.bind_eq_ok.mp hStage
  have hIter := iterates_of_repeatBody (fun _ _ => nonempty_of_expandNode) hRun
  have hr := building_of_iterates hIter hs
  rw [Nat.zero_add] at hr
  cases hResult
  rw [List.length_map, hr.stores.length]
  refine ⟨rfl, fun v hv => ?_⟩
  obtain ⟨hSeen, hParents⟩ := numbering_isPrefix_last hLast j
  have hExp := explored_numbering (next hn) (goal n) j
  have hb := List.getElem?_eq_getElem hv
  have hbLast := getElem?_of_isPrefix hSeen hb
  obtain ⟨nd, hnd, hRep⟩ := hr.stores.node v _ hb
  refine ⟨?_, ?_, fun h0 => ?_⟩
  · rw [← hLast]
    exact (List.getElem?_eq_some_iff.mp hbLast).1
  · rw [List.getElem?_map, hnd, blankOf_eq hbLast, ← hRep.row, ← hRep.column]
    rfl
  · have hPar := hExp.getElem?_parents hv
    rw [parent_eq (getElem?_of_isPrefix hParents hPar), List.getElem?_map, hr.stores.graph,
      List.getElem?_map, getElem?_tree (hExp.length ▸ hv)]
    simp [neighbours, h0, parent]

/-- The cells of the blanks of the first twelve boards, and their parents. -/
structure Begins (hn : 0 < n) (num : Discovery (Board n)) (cell : ℕ → ℕ × ℕ) (par : ℕ → ℕ) :
    Prop where
  bound : ∀ v < 12, v < num.seen.length
  cell_eq : ∀ v < 12, (cell v).1 = (blankOf hn num v).1 ∧ (cell v).2 = (blankOf hn num v).2
  parent_eq : ∀ v < 12, parent num.parents v = par v

def cellTwo (v : ℕ) : ℕ × ℕ :=
  [(1, 1), (0, 1), (1, 0), (0, 0), (0, 0), (1, 0), (0, 1), (1, 1), (1, 1), (0, 1), (1, 0),
    (0, 0)].getD v (0, 0)

def parentTwo (v : ℕ) : ℕ := [0, 0, 0, 1, 2, 3, 4, 5, 6, 7, 8, 9].getD v 0

def cellThree (v : ℕ) : ℕ × ℕ :=
  [(2, 2), (1, 2), (2, 1), (0, 2), (1, 1), (1, 1), (2, 0), (0, 1), (2, 1), (0, 1), (1, 0),
    (1, 2)].getD v (0, 0)

def parentThree (v : ℕ) : ℕ := [0, 0, 0, 1, 1, 2, 2, 3, 4, 4, 4, 5].getD v 0

theorem begins_of_stage {hn : 0 < n} (hn' : n ≤ 256) {last j : ℕ}
    (hLast : (numbering (next hn) (goal n) last).seen.length = last)
    {cells : List (Int × Int)} {firsts : List (Option Int)}
    (hStage : Graph.stage n j = .ok (cells, firsts)) {cell : ℕ → ℕ × ℕ} {par : ℕ → ℕ}
    (hCells : ∀ v < 12, cells[v]? = some (((cell v).1 : ℤ), ((cell v).2 : ℤ)))
    (hFirsts : ∀ v < 12, v ≠ 0 → firsts[v]? = some (some (par v : ℤ))) (hZero : par 0 = 0) :
    Begins hn (numbering (next hn) (goal n) last) cell par := by
  obtain ⟨-, hTable⟩ := stage_eq hn' hLast hStage
  have hLt : ∀ v < 12, v < cells.length := fun v hv =>
    (List.getElem?_eq_some_iff.mp (hCells v hv)).1
  constructor
  case bound =>
    intro v hv
    rw [hLast]
    exact (hTable v (hLt v hv)).1
  case cell_eq =>
    intro v hv
    have := (hCells v hv).symm.trans (hTable v (hLt v hv)).2.1
    simp only [Option.some.injEq, Prod.mk.injEq, Nat.cast_inj] at this
    exact this
  case parent_eq =>
    intro v hv
    by_cases h0 : v = 0
    · rw [h0, hZero, (explored_numbering (next hn) (goal n) last).parent_start]
    · have := ((hTable v (hLt v hv)).2.2 h0).symm.trans (hFirsts v hv h0)
      simp only [Option.some.injEq, Nat.cast_inj] at this
      exact this

set_option maxRecDepth 10000 in
theorem stage_two : Graph.stage (2 : ℕ) 12 = .ok
    ([(1, 1), (0, 1), (1, 0), (0, 0), (0, 0), (1, 0), (0, 1), (1, 1), (1, 1), (0, 1), (1, 0),
        (0, 0)],
      [some 1, some 0, some 0, some 1, some 2, some 3, some 4, some 5, some 6, some 7, some 8,
        some 9]) := by
  decide +kernel

set_option maxRecDepth 10000 in
theorem stage_three : Graph.stage (3 : ℕ) 6 = .ok
    ([(2, 2), (1, 2), (2, 1), (0, 2), (1, 1), (1, 1), (2, 0), (0, 1), (2, 1), (0, 1), (1, 0),
        (1, 2), (0, 1), (1, 0)],
      [some 1, some 0, some 0, some 1, some 1, some 2, some 2, some 3, some 4, some 4, some 4,
        some 5, some 5, some 5]) := by
  decide +kernel

section

variable {last : ℕ}

theorem begins_two
    (hLast : (numbering (next (by decide : 0 < 2)) (goal 2) last).seen.length = last) :
    Begins (by decide) (numbering (next (by decide)) (goal 2) last) cellTwo parentTwo ∧
      last = 12 :=
  ⟨begins_of_stage (by decide) hLast stage_two (by decide) (by decide) rfl,
    (last_unique hLast (stage_eq (by decide) hLast stage_two).1).symm⟩

theorem begins_three
    (hLast : (numbering (next (by decide : 0 < 3)) (goal 3) last).seen.length = last) :
    Begins (by decide) (numbering (next (by decide)) (goal 3) last) cellThree parentThree :=
  begins_of_stage (by decide) hLast stage_three (by decide) (by decide) rfl

end

/-! ### Two clients with one number -/

/-- The cells of two graphs agree on a board, or on its parent, at 9 and 10 only, and there they do
not agree on the parent's parent. -/
structure Diverge (cell cell' : ℕ → ℕ × ℕ) (par par' : ℕ → ℕ) : Prop where
  here : ∀ v < 12, cell v = cell' v ↔ v = 9 ∨ v = 10
  next : ∀ v < 12, cell (par v) = cell' (par' v) ↔ v = 9 ∨ v = 10
  later : ∀ v < 12, v = 9 ∨ v = 10 → cell (par (par v)) ≠ cell' (par' (par' v))
  below : ∀ v < 12, par v < 12 ∧ par' v < 12

theorem diverge_two_three : Diverge cellTwo cellThree parentTwo parentThree :=
  ⟨by decide, by decide, by decide, by decide⟩

theorem diverge_three_two : Diverge cellThree cellTwo parentThree parentTwo :=
  ⟨by decide, by decide, by decide, by decide⟩

section Pair

variable {m : ℕ} {hn : 0 < n} {hm : 0 < m} {num : Discovery (Board n)} {num' : Discovery (Board m)}
  {cell cell' : ℕ → ℕ × ℕ} {par par' : ℕ → ℕ} {c c' : TaquinClient} {v w w' : ℕ}

theorem stepText_eq_iff (hB : Begins hn num cell par) (hB' : Begins hm num' cell' par')
    (hw : w < 12) (hw' : w' < 12) (k : ℤ) :
    stepText k (blankOf hn num w) = stepText k (blankOf hm num' w') ↔ cell w = cell' w' := by
  obtain ⟨h1, h2⟩ := hB.cell_eq w hw
  obtain ⟨h1', h2'⟩ := hB'.cell_eq w' hw'
  rw [stepText_inj, ← h1, ← h2, ← h1', ← h2', Prod.ext_iff]

theorem answers_cons_error_iff (hB : Begins hn num cell par) (hB' : Begins hm num' cell' par')
    (h : Working hn num c w) (h' : Working hm num' c' w') (hStep : c'.step = c.step)
    (hw : w < 12) (hw' : w' < 12) (es : List Event) :
    c.answers (.errorSolve :: es) = c'.answers (.errorSolve :: es) ↔
      cell w = cell' w' ∧ c.answers es = c'.answers es := by
  rw [TaquinClient.answers, TaquinClient.answers, h.handle_error, h'.handle_error, hStep,
    ← stepText_eq_iff hB hB' hw hw' c.step]
  simp

theorem answers_cons_ack_iff (hB : Begins hn num cell par) (hB' : Begins hm num' cell' par')
    (hD : Diverge cell cell' par par') (h : Working hn num c w) (h' : Working hm num' c' w')
    (hStep : c'.step = c.step) (hw : w < 12) (hw' : w' < 12) (es : List Event) :
    c.answers (.ackSolve :: es) = c'.answers (.ackSolve :: es) ↔
      cell (par w) = cell' (par' w') ∧
        ({ c with id := (par w : ℕ), step := c.step + 1 } : TaquinClient).answers es =
          ({ c' with id := (par' w' : ℕ), step := c.step + 1 } : TaquinClient).answers es := by
  rw [TaquinClient.answers, TaquinClient.answers, h.handle_ack, h'.handle_ack, hStep,
    hB.parent_eq w hw, hB'.parent_eq w' hw',
    ← stepText_eq_iff hB hB' (hD.below w hw).1 (hD.below w' hw').2 (c.step + 1)]
  simp

/-- After an acknowledgment at 9 or 10 the answers stay the same until the next one. -/
theorem answers_eq_after_ack (hB : Begins hn num cell par) (hB' : Begins hm num' cell' par')
    (hD : Diverge cell cell' par par') (hv : v < 12) (hSame : v = 9 ∨ v = 10)
    (h : Working hn num c (par v)) (h' : Working hm num' c' (par' v)) (hStep : c'.step = c.step)
    {es : List Event} (hes : ∀ e ∈ es, e = .ackSolve ∨ e = .errorSolve) :
    c.answers es = c'.answers es ↔ es.count .ackSolve = 0 := by
  obtain ⟨hw, hw'⟩ := hD.below v hv
  induction es with
  | nil => exact iff_of_true rfl rfl
  | cons e es ih =>
    rcases hes e (by simp) with rfl | rfl
    · rw [answers_cons_ack_iff hB hB' hD h h' hStep hw hw', List.count_cons_self]
      exact iff_of_false (fun hEq => hD.later v hv hSame hEq.1) (by omega)
    · rw [answers_cons_error_iff hB hB' h h' hStep hw hw', and_iff_right ((hD.next v hv).mpr hSame),
        List.count_cons_of_ne (by decide)]
      exact ih fun e he => hes e (by simp [he])

theorem answers_eq_of_same (hB : Begins hn num cell par) (hB' : Begins hm num' cell' par')
    (hD : Diverge cell cell' par par') (hv : v < 12) (hSame : v = 9 ∨ v = 10)
    (h : Working hn num c v) (h' : Working hm num' c' v) (hStep : c'.step = c.step)
    {es : List Event} (hes : ∀ e ∈ es, e = .ackSolve ∨ e = .errorSolve) :
    c.answers es = c'.answers es ↔ es.count .ackSolve ≤ 1 := by
  induction es with
  | nil => exact iff_of_true rfl (Nat.zero_le _)
  | cons e es ih =>
    have hRest : ∀ e ∈ es, e = .ackSolve ∨ e = .errorSolve := fun e he => hes e (by simp [he])
    rcases hes e (by simp) with rfl | rfl
    · have hNext := h.move (hB.bound _ (hD.below v hv).1) (c.step + 1)
      have hNext' := h'.move (hB'.bound _ (hD.below v hv).2) (c.step + 1)
      rw [answers_cons_ack_iff hB hB' hD h h' hStep hv hv,
        and_iff_right ((hD.next v hv).mpr hSame),
        answers_eq_after_ack hB hB' hD hv hSame hNext hNext' rfl hRest, List.count_cons_self]
      omega
    · rw [answers_cons_error_iff hB hB' h h' hStep hv hv, and_iff_right ((hD.here v hv).mpr hSame),
        List.count_cons_of_ne (by decide)]
      exact ih hRest

/-- When two clients at the number `v` of their graphs give the same answers. -/
theorem answers_eq_iff (hB : Begins hn num cell par) (hB' : Begins hm num' cell' par')
    (hD : Diverge cell cell' par par') (hv : v < 12) (h : Working hn num c v)
    (h' : Working hm num' c' v) (hStep : c'.step = c.step) {es : List Event}
    (hes : ∀ e ∈ es, e = .ackSolve ∨ e = .errorSolve) :
    c.answers es = c'.answers es ↔ es = [] ∨ ((v = 9 ∨ v = 10) ∧ es.count .ackSolve ≤ 1) := by
  by_cases hSame : v = 9 ∨ v = 10
  · rw [answers_eq_of_same hB hB' hD hv hSame h h' hStep hes, and_iff_right hSame]
    constructor
    · exact .inr
    · rintro (rfl | hCount)
      · exact Nat.zero_le _
      · exact hCount
  · rw [or_iff_left fun hBoth => hSame hBoth.1]
    cases es with
    | nil => exact iff_of_true rfl rfl
    | cons e es =>
      refine iff_of_false ?_ (List.cons_ne_nil e es)
      rcases hes e (by simp) with rfl | rfl
      · rw [answers_cons_ack_iff hB hB' hD h h' hStep hv hv]
        exact fun hEq => hSame ((hD.next v hv).mp hEq.1)
      · rw [answers_cons_error_iff hB hB' h h' hStep hv hv]
        exact fun hEq => hSame ((hD.here v hv).mp hEq.1)

end Pair

/-- A number that the graph does not have is answered by nothing. -/
theorem handle_of_out_of_range {hn : 0 < n} {num : Discovery (Board n)} {c : TaquinClient}
    {g : Graph} (hGraph : listGet c.graphs c.size = .ok g) (hg : Solved hn num g) {v : ℕ}
    (hId : c.id = v) (hv : num.seen.length ≤ v) :
    c.handle .ackSolve = (c, []) ∧ c.handle .errorSolve = (c, []) := by
  have hFail : ∀ {α : Type} (l : List α), l.length = num.seen.length →
      ∃ e, listGet l (v : ℤ) = .error e := by
    intro α l hl
    cases hGet : listGet l (v : ℤ) with
    | ok a =>
      have := (List.getElem?_eq_some_iff.mp (listGet_natCast.mp hGet)).1
      omega
    | error e => exact ⟨e, rfl⟩
  have hParents : g.parents.length = num.seen.length := by
    rw [hg.parents, List.length_map, hg.complete.length]
  obtain ⟨e, he⟩ := hFail g.parents hParents
  obtain ⟨e', he'⟩ := hFail g.reverseIds hg.length
  have hParent : c.parentId = .error e := by
    rw [TaquinClient.parentId, hGraph, Result.ok_bind, hId]
    exact he
  have hReply : c.stepReply = .error e' := by
    rw [TaquinClient.stepReply, hGraph, Result.ok_bind, hId, Graph.getBitSet, he',
      Result.error_bind]
  constructor
  · simp only [TaquinClient.handle, TaquinClient.solveNextStep, hParent, TaquinClient.emit]
  · simp only [TaquinClient.handle, TaquinClient.errorStep, hReply, TaquinClient.emit]

/-! ### A request in a running solve -/

/-- With a number that its graph has, the client answers every acknowledgment and error. -/
theorem Working.answers_eq_step {hn : 0 < n} {num : Discovery (Board n)} {c : TaquinClient} {v : ℕ}
    (h : Working hn num c v) {es : List Event} (hes : ∀ e ∈ es, e = .ackSolve ∨ e = .errorSolve) :
    ∀ out ∈ c.answers es, ∃ s, out = [.step s] := by
  induction es generalizing c v with
  | nil => simp [TaquinClient.answers]
  | cons e es ih =>
    have hRest : ∀ e ∈ es, e = .ackSolve ∨ e = .errorSolve := fun e he => hes e (by simp [he])
    rw [TaquinClient.answers, List.forall_mem_cons]
    rcases hes e (by simp) with rfl | rfl
    · rw [h.handle_ack]
      exact ⟨⟨_, rfl⟩, ih (h.move h.parent_bound (c.step + 1)) hRest⟩
    · rw [h.handle_error]
      exact ⟨⟨_, rfl⟩, ih h hRest⟩

/-- A request changes the current size and nothing else. -/
theorem handle_getMatriz {c : TaquinClient} {obj : JSONObject} {s : Text} {m : ℤ}
    (hObj : obj.getString ['n', '_', 's', 'i', 'z', 'e'] = some s) (hParse : parseInt s = .ok m) :
    (c.handle (.getMatriz obj)).1 = { c with size := toInt (m - 2) } := by
  simp only [TaquinClient.handle, hObj, hParse, TaquinClient.emit, TaquinClient.getTaquin]
  split <;> rfl

/-- The answers around a request are the ones without it when the later ones are. -/
theorem undisturbed_iff_answers {hn : 0 < n} {num : Discovery (Board n)} {c : TaquinClient} {v : ℕ}
    (h : Working hn num c v) {pre post : List Event}
    (hes : ∀ e ∈ pre ++ post, e = .ackSolve ∨ e = .errorSolve) {obj : JSONObject} {s : Text} {m : ℤ}
    (hObj : obj.getString ['n', '_', 's', 'i', 'z', 'e'] = some s) (hParse : parseInt s = .ok m) :
    ((c.answers (pre ++ .getMatriz obj :: post)).eraseIdx pre.length = c.answers (pre ++ post) ∧
        ∀ out ∈ c.answers (pre ++ post), ∃ s, out = [.step s]) ↔
      (c.after pre).answers post =
        ({ c.after pre with size := toInt (m - 2) } : TaquinClient).answers post := by
  rw [and_iff_left (h.answers_eq_step hes), TaquinClient.answers_append,
    TaquinClient.answers_append, TaquinClient.answers, handle_getMatriz hObj hParse,
    List.eraseIdx_append_of_length_le (by rw [TaquinClient.length_answers]),
    TaquinClient.length_answers, Nat.sub_self, List.eraseIdx_cons_zero, List.append_cancel_left_eq]
  exact eq_comm

/-- When a client that is switched to another graph gives the same answers. -/
theorem answers_switched_iff {m : ℕ} {hn : 0 < n} {hm : 0 < m} {num : Discovery (Board n)}
    {num' : Discovery (Board m)} {cell cell' : ℕ → ℕ × ℕ} {par par' : ℕ → ℕ} {c : TaquinClient}
    {v : ℕ} (hB : Begins hn num cell par) (hB' : Begins hm num' cell' par')
    (hD : Diverge cell cell' par par') (h : Working hn num c v) {size : ℤ} {g : Graph}
    (hGraph : listGet c.graphs size = .ok g) (hg : Solved hm num' g)
    (hLarge : 12 ≤ v → num'.seen.length ≤ v) {es : List Event}
    (hes : ∀ e ∈ es, e = .ackSolve ∨ e = .errorSolve) :
    c.answers es = ({ c with size } : TaquinClient).answers es ↔
      es = [] ∨ ((c.id = 9 ∨ c.id = 10) ∧ es.count .ackSolve ≤ 1) := by
  have hId : (c.id = 9 ∨ c.id = 10) ↔ (v = 9 ∨ v = 10) := by
    rw [h.id]
    omega
  rw [hId]
  rcases Nat.lt_or_ge v 12 with hv | hv
  · have h' : Working hm num' { c with size } v := ⟨⟨g, hGraph, hg⟩, h.id, hB'.bound v hv⟩
    exact answers_eq_iff hB hB' hD hv h h' rfl hes
  · obtain ⟨hAck, hError⟩ :=
      handle_of_out_of_range (c := { c with size }) hGraph hg h.id (hLarge hv)
    rw [or_iff_left fun hBoth => by omega]
    cases es with
    | nil => exact iff_of_true rfl rfl
    | cons e es =>
      refine iff_of_false (fun hEq => ?_) (List.cons_ne_nil e es)
      have hMem : (c.handle e).2 ∈ c.answers (e :: es) := by
        rw [TaquinClient.answers]
        exact List.mem_cons_self
      obtain ⟨s, hs⟩ := h.answers_eq_step hes _ hMem
      rw [TaquinClient.answers, TaquinClient.answers, hs] at hEq
      rcases hes e (by simp) with rfl | rfl
      · rw [hAck] at hEq
        cases hEq
      · rw [hError] at hEq
        cases hEq

/-- The index of a graph of the client. -/
theorem index_of_listGet {g2 g3 g : Graph} {i : ℤ} (h : listGet [g2, g3] i = .ok g) :
    (i = 0 ∧ g = g2) ∨ (i = 1 ∧ g = g3) := by
  obtain ⟨k, rfl, hk⟩ := listGet_eq_ok.mp h
  have hLt := (List.getElem?_eq_some_iff.mp hk).1
  simp only [List.length_cons, List.length_nil] at hLt
  obtain rfl | rfl : k = 0 ∨ k = 1 := by omega
  · exact .inl ⟨rfl, (Option.some.inj hk).symm⟩
  · exact .inr ⟨rfl, (Option.some.inj hk).symm⟩

/-- A client that has solved a board, after any acknowledgments and errors. -/
theorem working_after_solve {hn : 0 < n} (hn' : n ≤ 256) {num : Discovery (Board n)}
    {c : TaquinClient} {g : Graph} (hGraph : listGet c.graphs c.size = .ok g)
    (hg : Solved hn num g) {b : Board n} (hb : Solvable b) {pre : List Event}
    (hes : ∀ e ∈ pre, e = .ackSolve ∨ e = .errorSolve) :
    ∃ v w, Working hn num (c.solveTaquin (tokens (rowMajor b))).1 v ∧
      Working hn num ((c.solveTaquin (tokens (rowMajor b))).1.after pre) w ∧
      ((c.solveTaquin (tokens (rowMajor b))).1.after pre).size = c.size := by
  obtain ⟨v, hv, -⟩ := exists_level hg.complete (isDist_dist (reachable_symm hb))
  obtain ⟨hWork, hEq⟩ := solveTaquin_eq hn' hGraph hg hv
  obtain ⟨hAfter, hEqAfter⟩ := hWork.after_eq hes
  exact ⟨_, _, hWork, hAfter, by rw [hEqAfter, hEq]⟩

/-- A request for a board leaves a running solve undisturbed in three cases only: it is for the
current size, it is the last event, or the current number is 9 or 10 and one acknowledgment at most
follows. -/
theorem undisturbed_iff (pq : PriorityQueue TripleComparator.compare) (username : Text)
    (c0 : TaquinClient) (hNew : TaquinClient.new pq username = .ok c0) (history : List Event)
    (n : ℕ) (hSize : (c0.after history).size = (n : ℤ) - 2) (g : Graph)
    (hGraph : listGet (c0.after history).graphs ((n : ℤ) - 2) = .ok g) (b : Board n)
    (hb : Solvable b) (c : TaquinClient)
    (hc : c = ((c0.after history).solveTaquin (tokens (rowMajor b))).1) (pre post : List Event)
    (hes : ∀ e ∈ pre ++ post, e = .ackSolve ∨ e = .errorSolve) (obj : JSONObject) (s : Text) (m : ℤ)
    (hObj : obj.getString ['n', '_', 's', 'i', 'z', 'e'] = some s) (hParse : parseInt s = .ok m)
    (g' : Graph) (hSupported : listGet c.graphs (m - 2) = .ok g') :
    ((c.answers (pre ++ .getMatriz obj :: post)).eraseIdx pre.length = c.answers (pre ++ post) ∧
        ∀ out ∈ c.answers (pre ++ post), ∃ s, out = [.step s]) ↔
      m = n ∨ post = [] ∨
        (((c.after pre).id = 9 ∨ (c.after pre).id = 10) ∧ post.count .ackSolve ≤ 1) := by
  obtain ⟨c', g2, g3, hNew', hc0, h2, h3⟩ := exists_new pq username
  obtain rfl : c0 = c' := Except.ok.inj (hNew.symm.trans hNew')
  obtain ⟨last2, hLast2, hg2⟩ := solved_of_new (by decide) (by decide) h2
  obtain ⟨last3, hLast3, hg3⟩ := solved_of_new (by decide) (by decide) h3
  obtain ⟨hB2, rfl⟩ := begins_two hLast2
  have hB3 := begins_three hLast3
  have hGraphs : (c0.after history).graphs = [g2, g3] := by rw [TaquinClient.after_graphs, hc0]
  have hGraphs' : (c.after pre).graphs = [g2, g3] := by
    rw [TaquinClient.after_graphs, hc, TaquinClient.solveTaquin_graphs, hGraphs]
  have hPre : ∀ e ∈ pre, e = .ackSolve ∨ e = .errorSolve := fun e he => hes e (by simp [he])
  have hPost : ∀ e ∈ post, e = .ackSolve ∨ e = .errorSolve := fun e he => hes e (by simp [he])
  rw [hc, TaquinClient.solveTaquin_graphs, hGraphs] at hSupported
  have hm := index_of_listGet hSupported
  have hIndex : toInt (m - 2) = m - 2 := toInt_of_range (by omega) (by omega)
  have hSame : (c.after pre).size = m - 2 →
      ({ c.after pre with size := m - 2 } : TaquinClient) = c.after pre := fun h => by rw [← h]
  rw [hGraphs] at hGraph
  rcases index_of_listGet hGraph with ⟨hnIndex, rfl⟩ | ⟨hnIndex, rfl⟩
  · obtain rfl : n = 2 := by omega
    obtain ⟨v, w, hStart, hWork, hAfterSize⟩ :=
      working_after_solve (by decide) (by rw [hSize, hGraphs]; exact hGraph) hg2 hb hPre
    rw [← hc] at hStart hWork hAfterSize
    rw [undisturbed_iff_answers hStart hes hObj hParse, hIndex]
    rcases hm with ⟨hm, -⟩ | ⟨hm, -⟩
    · exact iff_of_true (by rw [hSame (by omega)]) (.inl (by omega))
    · rw [or_iff_right (by omega), hm]
      have hGraph' : listGet (c.after pre).graphs 1 = .ok g3 := by rw [hGraphs']; rfl
      refine answers_switched_iff hB2 hB3 diverge_two_three hWork hGraph' hg3 ?_ hPost
      intro hLarge
      have := hWork.bound
      omega
  · obtain rfl : n = 3 := by omega
    obtain ⟨v, w, hStart, hWork, hAfterSize⟩ :=
      working_after_solve (by decide) (by rw [hSize, hGraphs]; exact hGraph) hg3 hb hPre
    rw [← hc] at hStart hWork hAfterSize
    rw [undisturbed_iff_answers hStart hes hObj hParse, hIndex]
    rcases hm with ⟨hm, -⟩ | ⟨hm, -⟩
    · rw [or_iff_right (by omega), hm]
      have hGraph' : listGet (c.after pre).graphs 0 = .ok g2 := by rw [hGraphs']; rfl
      refine answers_switched_iff hB3 hB2 diverge_three_two hWork hGraph' hg2 ?_ hPost
      intro hLarge
      rwa [hLast2]
    · exact iff_of_true (by rw [hSame (by omega)]) (.inl (by omega))

/-- A request for size 3 in a solve of size 2. -/
def requestThree : JSONObject := [(['n', '_', 's', 'i', 'z', 'e'], ['3'])]

/-- The step 1 1 1 becomes 1 2 2 when it is asked for again after a request. -/
theorem disturbed_by_request :
    ∃ c0 c : TaquinClient, TaquinClient.new tripleQueue [] = .ok c0 ∧
      c = (c0.solveTaquin (tokens (rowMajor lastMove))).1 ∧
      c.answers [.errorSolve] = [[.step (stepText 1 ((1, 1) : Cell 2))]] ∧
      (c.answers [.getMatriz requestThree, .errorSolve]).eraseIdx 0 =
        [[.step (stepText 1 ((2, 2) : Cell 3))]] ∧
      (c.answers [.getMatriz requestThree, .errorSolve]).eraseIdx 0 ≠ c.answers [.errorSolve] := by
  obtain ⟨c0, g2, g3, hNew, rfl, h2, h3⟩ := exists_new tripleQueue []
  obtain ⟨last2, -, hg2⟩ := solved_of_new (by decide) (by decide) h2
  obtain ⟨last3, -, hg3⟩ := solved_of_new (by decide) (by decide) h3
  refine ⟨_, _, hNew, rfl, ?_⟩
  obtain ⟨hWork, hEq⟩ := solveTaquin_lastMove
    (c := ⟨⟨[], none⟩, 0, [g2, g3], 0, 0⟩) rfl hg2
  rw [hEq]
  have hOther : Working (by decide : 0 < 3) _ (⟨⟨[], none⟩, 1, [g2, g3], 1, (0 : ℕ)⟩ : TaquinClient)
      0 :=
    ⟨⟨g3, rfl, hg3⟩, rfl, (List.getElem?_eq_some_iff.mp hg3.complete.seen_zero).1⟩
  have hBefore := hWork.handle_error
  rw [blankOf_start hg2 (c := (1, 1)) (by decide)] at hBefore
  have hAfter := hOther.handle_error
  rw [blankOf_start hg3 (c := (2, 2)) (by decide)] at hAfter
  have hRequest : (TaquinClient.handle ⟨⟨[], none⟩, 1, [g2, g3], 0, (0 : ℕ)⟩
      (.getMatriz requestThree)).1 = ⟨⟨[], none⟩, 1, [g2, g3], toInt (3 - 2), (0 : ℕ)⟩ :=
    handle_getMatriz rfl (by decide : parseInt ['3'] = .ok 3)
  have h1 : (⟨⟨[], none⟩, 1, [g2, g3], 0, (0 : ℕ)⟩ : TaquinClient).answers [.errorSolve] =
      [[.step (stepText 1 ((1, 1) : Cell 2))]] := by
    rw [TaquinClient.answers, hBefore]
    rfl
  have h2 : ((⟨⟨[], none⟩, 1, [g2, g3], 0, (0 : ℕ)⟩ : TaquinClient).answers
      [.getMatriz requestThree, .errorSolve]).eraseIdx 0 =
        [[.step (stepText 1 ((2, 2) : Cell 3))]] := by
    rw [TaquinClient.answers, List.eraseIdx_cons_zero, hRequest, TaquinClient.answers]
    rw [show toInt (3 - 2) = 1 from rfl, hAfter]
    rfl
  refine ⟨h1, h2, ?_⟩
  rw [h1, h2]
  decide

theorem undisturbed_iff_requestThree :
    ∃ c0 c : TaquinClient, TaquinClient.new tripleQueue [] = .ok c0 ∧
      c = (c0.solveTaquin (tokens (rowMajor lastMove))).1 ∧
      (((c.answers [.getMatriz requestThree, .ackSolve]).eraseIdx 0 = c.answers [.ackSolve] ∧
          ∀ out ∈ c.answers [.ackSolve], ∃ s, out = [.step s]) ↔
        (3 : ℤ) = (2 : ℕ) ∨ [Event.ackSolve] = [] ∨
          (((c.after []).id = 9 ∨ (c.after []).id = 10) ∧
            [Event.ackSolve].count .ackSolve ≤ 1)) := by
  obtain ⟨c0, g2, g3, hNew, hc0, -, -⟩ := exists_new tripleQueue []
  refine ⟨c0, _, hNew, rfl, ?_⟩
  exact undisturbed_iff tripleQueue [] c0 hNew [] 2 (by rw [hc0]; rfl) g2 (by rw [hc0]; rfl)
    lastMove solvable_lastMove _ rfl [] [.ackSolve] (by decide) requestThree ['3'] 3 rfl
    (by decide) g3 (by rw [TaquinClient.solveTaquin_graphs, hc0]; rfl)

end TaquinSolver
