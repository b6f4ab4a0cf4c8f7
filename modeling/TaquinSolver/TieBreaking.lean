import TaquinSolver.SettlingOrder
import TaquinSolver.Session

/-! What the priority queue of the JDK decides.  Two clients whose queues break ties in different
ways have the same graphs but for the farthest nodes, and only `getTaquin` reads these.  So in every
run the two clients answer alike, event by event, but for the board in the answer to a request. -/

namespace TaquinSolver

open Java Sliding Search Search.Bfs

variable {n : ℕ}

/-- A graph without its farthest node. -/
def Graph.unmarked (g : Graph) : Graph := { g with farthestNode := 0 }

/-- The constructor's graph is the same for all priority queues, but for the farthest node. -/
theorem new_unmarked (hn : 0 < n) (hn' : n ≤ 256) {pq pq' : PriorityQueue TripleComparator.compare}
    {g g' : Graph} (hNew : Graph.new pq n = .ok g) (hNew' : Graph.new pq' n = .ok g') :
    g.unmarked = g'.unmarked := by
  obtain ⟨t, s, k, hTaquin, -, -, -, hSolved⟩ := new_solved hn hn'
  have hParents : g.parents = g'.parents := by
    obtain ⟨g₁, hNew₁, hg₁⟩ := hSolved pq
    obtain ⟨g₂, hNew₂, hg₂⟩ := hSolved pq'
    obtain rfl := Except.ok.inj (hNew.symm.trans hNew₁)
    obtain rfl := Except.ok.inj (hNew'.symm.trans hNew₂)
    rw [hg₁.parents, hg₂.parents]
  rw [Graph.new, hTaquin, Result.ok_bind] at hNew hNew'
  obtain ⟨g₀, hCreate, hRun⟩ := Result.bind_eq_ok.1 hNew
  obtain ⟨g₁, hCreate', hRun'⟩ := Result.bind_eq_ok.1 hNew'
  obtain rfl := Except.ok.inj (hCreate.symm.trans hCreate')
  obtain ⟨s₀, -, hEnd⟩ := Result.bind_eq_ok.1 hRun
  obtain ⟨s₁, -, hEnd'⟩ := Result.bind_eq_ok.1 hRun'
  cases hEnd
  cases hEnd'
  rw [Graph.unmarked, Graph.unmarked, hParents]

/-! ### A client without its farthest nodes -/

theorem listGet_map {α β : Type} (f : α → β) (l : List α) (i : ℤ) :
    listGet (l.map f) i = f <$> listGet l i := by
  unfold listGet
  rw [List.getElem?_map]
  cases l[i.toNat]? with
  | none => rfl
  | some a =>
    rw [Option.map_some]
    dsimp only
    split <;> rfl

namespace TaquinClient

def unmarked (c : TaquinClient) : TaquinClient := { c with graphs := c.graphs.map Graph.unmarked }

/-- What is computed from a graph without its farthest node. -/
theorem listGet_unmarked {α : Type} (c : TaquinClient) (size : ℤ) {f : Graph → Result α}
    (hf : ∀ g, f g.unmarked = f g) :
    (listGet c.unmarked.graphs size >>= f) = listGet c.graphs size >>= f := by
  rw [unmarked, listGet_map]
  cases listGet c.graphs size with
  | error e => rfl
  | ok g => exact hf g

theorem stepReply_unmarked (c : TaquinClient) : c.unmarked.stepReply = c.stepReply :=
  c.listGet_unmarked c.size fun _ => rfl

theorem parentId_unmarked (c : TaquinClient) : c.unmarked.parentId = c.parentId :=
  c.listGet_unmarked c.size fun _ => rfl

theorem findId_unmarked (c : TaquinClient) (matriz : Text) :
    c.unmarked.findId matriz = c.findId matriz :=
  c.listGet_unmarked c.size fun _ => rfl

/-- The methods of a client without its farthest nodes. -/
theorem solveTaquin_unmarked (c : TaquinClient) (matriz : Text) :
    c.unmarked.solveTaquin matriz =
      ((c.solveTaquin matriz).1.unmarked, (c.solveTaquin matriz).2) := by
  have hFind : ({ c.unmarked with step := 1 } : TaquinClient).findId matriz =
      ({ c with step := 1 } : TaquinClient).findId matriz :=
    findId_unmarked { c with step := 1 } matriz
  rw [solveTaquin, solveTaquin]
  dsimp only
  rw [hFind]
  cases ({ c with step := 1 } : TaquinClient).findId matriz with
  | error e => rfl
  | ok id =>
    have hParent : ({ c.unmarked with step := 1, id } : TaquinClient).parentId =
        ({ c with step := 1, id } : TaquinClient).parentId :=
      parentId_unmarked { c with step := 1, id }
    dsimp only
    rw [hParent]
    cases ({ c with step := 1, id } : TaquinClient).parentId with
    | error e => rfl
    | ok id => exact congrArg (Prod.mk _) (stepReply_unmarked { c with step := 1, id })

theorem solveNextStep_unmarked (c : TaquinClient) :
    c.unmarked.solveNextStep = (c.solveNextStep.1.unmarked, c.solveNextStep.2) := by
  rw [solveNextStep, parentId_unmarked, solveNextStep]
  cases c.parentId with
  | error e => rfl
  | ok id => exact congrArg (Prod.mk _) (stepReply_unmarked { c with id, step := c.step + 1 })

theorem errorStep_unmarked (c : TaquinClient) :
    c.unmarked.errorStep = (c.errorStep.1.unmarked, c.errorStep.2) := by
  rw [errorStep, stepReply_unmarked]
  rfl

theorem emit_unmarked (event : Text → Emission) (r : TaquinClient × Result Text) :
    emit event (r.1.unmarked, r.2) = ((emit event r).1.unmarked, (emit event r).2) := by
  rw [emit, emit]
  cases r.2 <;> rfl

/-- A client without its farthest nodes handles every event but a request for a board as the client
itself does. -/
theorem handle_unmarked (c : TaquinClient) {e : Event} (he : ∀ obj, e ≠ .getMatriz obj) :
    c.unmarked.handle e = ((c.handle e).1.unmarked, (c.handle e).2) := by
  cases e with
  | getMatriz obj => exact absurd rfl (he obj)
  | connect | start | disconnect => rfl
  | login obj =>
    rw [handle, handle]
    cases obj.getString ['i', 'd'] <;> rfl
  | solve obj =>
    rw [handle, handle]
    cases obj.getString ['i', 'd'] with
    | none => rfl
    | some id =>
      have hSame : c.unmarked.connection.id = c.connection.id := rfl
      dsimp only
      rw [hSame]
      split
      · cases obj.getString ['m', 'a', 't', 'r', 'i', 'z'] with
        | none => rfl
        | some matriz =>
          dsimp only
          rw [solveTaquin_unmarked]
          exact emit_unmarked .step (c.solveTaquin matriz)
      · rfl
  | ackSolve =>
    rw [handle, handle, solveNextStep_unmarked]
    exact emit_unmarked .step c.solveNextStep
  | errorSolve =>
    rw [handle, handle, errorStep_unmarked]
    exact emit_unmarked .step c.errorStep

end TaquinClient

/-! ### Two clients -/

/-- What a client sends, with the boards for opponents left out. -/
def Emission.masked : Emission → Emission
  | .getMatrizReply _ => .getMatrizReply []
  | e => e

theorem emit_masked {c : TaquinClient} {r : TaquinClient × Result Text} (hr : r.1 = c) :
    TaquinClient.emit .getMatrizReply r =
      (c, (r.2.toOption.map Emission.getMatrizReply).toList) := by
  rw [TaquinClient.emit]
  cases r.2 <;> rw [hr] <;> rfl

/-- A client with finished graphs sends a board exactly when it has a graph of the size. -/
theorem getTaquin_isSome {c : TaquinClient} (h : Supplied c.graphs) (size : ℤ) :
    (c.getTaquin size).2.toOption.map (fun _ => ()) =
      (listGet c.unmarked.graphs (toInt (size - 2))).toOption.map fun _ => () := by
  rw [TaquinClient.unmarked, listGet_map]
  cases hGraph : listGet c.graphs (toInt (size - 2)) with
  | error e =>
    simp only [TaquinClient.getTaquin]
    rw [hGraph]
    rfl
  | ok g =>
    obtain ⟨n, -, -, hn, num, hg⟩ := h.solved hGraph
    obtain ⟨f, hf, hfLt, -⟩ := hg.farthest
    rw [getTaquin_eq hg hGraph hf (List.getElem?_eq_getElem hfLt)]
    rfl

theorem handle_alike {c c' : TaquinClient} (h : Supplied c.graphs) (h' : Supplied c'.graphs)
    (hSame : c.unmarked = c'.unmarked) (e : Event) :
    (c.handle e).1.unmarked = (c'.handle e).1.unmarked ∧
      (c.handle e).2.map Emission.masked = (c'.handle e).2.map Emission.masked := by
  by_cases he : ∀ obj, e ≠ .getMatriz obj
  · have hEq := (c.handle_unmarked he).symm.trans ((congrArg (·.handle e) hSame).trans
      (c'.handle_unmarked he))
    rw [Prod.mk.injEq] at hEq
    exact ⟨hEq.1, congrArg (List.map Emission.masked) hEq.2⟩
  · obtain ⟨obj, rfl⟩ : ∃ obj, e = .getMatriz obj := by
      rw [not_forall] at he
      obtain ⟨obj, hObj⟩ := he
      exact ⟨obj, not_not.1 hObj⟩
    rw [TaquinClient.handle, TaquinClient.handle]
    cases obj.getString ['n', '_', 's', 'i', 'z', 'e'] with
    | none => exact ⟨hSame, rfl⟩
    | some s =>
      cases hParse : parseInt s with
      | error _ =>
        simp only [hParse]
        exact ⟨hSame, trivial⟩
      | ok size =>
        have hSome := getTaquin_isSome h size
        rw [hSame, ← getTaquin_isSome h' size] at hSome
        simp only [hParse]
        rw [emit_masked rfl, emit_masked rfl]
        constructor
        · exact congrArg (fun c : TaquinClient => { c with size := toInt (size - 2) }) hSame
        · dsimp only
          cases hText : (c.getTaquin size).2 <;> cases hText' : (c'.getTaquin size).2 <;>
            rw [hText, hText'] at hSome <;> first | rfl | cases hSome

/-- Clients with different priority queues answer every run of events alike, but for the boards that
they send for opponents. -/
theorem answers_alike (pq pq' : PriorityQueue TripleComparator.compare) (username : Text)
    (c c' : TaquinClient) (hNew : TaquinClient.new pq username = .ok c)
    (hNew' : TaquinClient.new pq' username = .ok c') (es : List Event) :
    (c.answers es).map (List.map Emission.masked) =
      (c'.answers es).map (List.map Emission.masked) := by
  obtain ⟨-, hSupplied⟩ := new_supplied hNew
  obtain ⟨-, hSupplied'⟩ := new_supplied hNew'
  have hSame : c.unmarked = c'.unmarked := by
    obtain ⟨c₁, g2, g3, hNew₁, rfl, h2, h3⟩ := exists_new pq username
    obtain ⟨c₂, g2', g3', hNew₂, rfl, h2', h3'⟩ := exists_new pq' username
    obtain rfl := Except.ok.inj (hNew.symm.trans hNew₁)
    obtain rfl := Except.ok.inj (hNew'.symm.trans hNew₂)
    simp only [TaquinClient.unmarked, List.map_cons, List.map_nil]
    rw [new_unmarked (by decide) (by decide) h2 h2', new_unmarked (by decide) (by decide) h3 h3']
  clear hNew hNew'
  induction es generalizing c c' with
  | nil => rfl
  | cons e es ih =>
    obtain ⟨hNext, hOut⟩ := handle_alike hSupplied hSupplied' hSame e
    rw [TaquinClient.answers, TaquinClient.answers, List.map_cons, List.map_cons, hOut]
    congr 1
    apply ih _ _ _ _ hNext
    · rwa [c.handle_graphs]
    · rwa [c'.handle_graphs]

theorem answers_alike_descending : ∃ c c', TaquinClient.new tripleQueue [] = .ok c ∧
    TaquinClient.new descendingQueue [] = .ok c' ∧
      (c.answers [.getMatriz [(['n', '_', 's', 'i', 'z', 'e'], ['3'])], .ackSolve]).map
          (List.map Emission.masked) =
        (c'.answers [.getMatriz [(['n', '_', 's', 'i', 'z', 'e'], ['3'])], .ackSolve]).map
          (List.map Emission.masked) := by
  obtain ⟨c, _, _, hNew, -⟩ := exists_new tripleQueue []
  obtain ⟨c', _, _, hNew', -⟩ := exists_new descendingQueue []
  exact ⟨c, c', hNew, hNew', answers_alike tripleQueue descendingQueue [] c c' hNew hNew' _⟩

end TaquinSolver
