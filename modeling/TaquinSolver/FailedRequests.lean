import TaquinSolver.Session

/-! What a method of the client leaves behind when it throws.  `solveNextStep` looks the parent up
before it assigns anything, and `errorStep` assigns nothing.  `getTaquin` stores the size before it
looks the graph up, and `solveTaquin` resets the step counter before it looks the board up, so their
failures leave the client as it was only when these assignments change nothing
(`unharmed_iff_safe`). -/

namespace TaquinSolver

open Java Sliding Search Search.Bfs

/-- A call of one of the methods that answer the server. -/
inductive Operation
  | getTaquin (size : Int)
  | solveTaquin (matriz : Text)
  | solveNextStep
  | errorStep
  deriving DecidableEq, Repr

namespace TaquinClient

def perform (c : TaquinClient) : Operation → TaquinClient × Result Text
  | .getTaquin size => c.getTaquin size
  | .solveTaquin matriz => c.solveTaquin matriz
  | .solveNextStep => c.solveNextStep
  | .errorStep => c.errorStep

/-- A call that throws leaves the fields as they were, and the answers to all later acknowledgments
and errors. -/
def Unharmed (c : TaquinClient) (op : Operation) : Prop :=
  ∀ e, (c.perform op).2 = .error e →
    ((c.perform op).1.size = c.size ∧ (c.perform op).1.step = c.step ∧
      (c.perform op).1.id = c.id) ∧
    ∀ es : List Event, (∀ e ∈ es, e = .ackSolve ∨ e = .errorSolve) →
      (c.perform op).1.answers es = c.answers es

/-- A size is requested that is supported or is the current one, and a text is solved that is the
one of a known board or comes at the first step. -/
def Safe (c : TaquinClient) : Operation → Prop
  | .getTaquin size => toInt (size - 2) = c.size ∨ ∃ g, listGet c.graphs (toInt (size - 2)) = .ok g
  | .solveTaquin matriz => c.step = 1 ∨ ∃ g bs, listGet c.graphs c.size = .ok g ∧
      Utils.convertToStringtTBitset g.n g.getNbits g.getSizeBS matriz = .ok bs ∧ bs ∈ g.ids
  | .solveNextStep => True
  | .errorStep => True

variable {c : TaquinClient}

theorem unharmed_of_ok {op : Operation} {s : Text} (h : (c.perform op).2 = .ok s) :
    c.Unharmed op := by
  intro e he
  rw [h] at he
  cases he

theorem unharmed_of_eq {op : Operation} (h : (c.perform op).1 = c) : c.Unharmed op := by
  intro e _
  rw [h]
  exact ⟨⟨rfl, rfl, rfl⟩, fun _ _ => rfl⟩

theorem exists_findId_iff {matriz : Text} : (∃ id, c.findId matriz = .ok id) ↔
    ∃ g bs, listGet c.graphs c.size = .ok g ∧
      Utils.convertToStringtTBitset g.n g.getNbits g.getSizeBS matriz = .ok bs ∧ bs ∈ g.ids := by
  constructor
  · rintro ⟨id, hFind⟩
    obtain ⟨g, hGraph, hFind⟩ := Result.bind_eq_ok.mp hFind
    obtain ⟨bs, hConvert, hFind⟩ := Result.bind_eq_ok.mp hFind
    refine ⟨g, bs, hGraph, hConvert, ?_⟩
    rw [← AList.lookup_isSome, getId_eq_ok.mp hFind]
    rfl
  · rintro ⟨g, bs, hGraph, hConvert, hMem⟩
    obtain ⟨id, hId⟩ := Option.isSome_iff_exists.mp (AList.lookup_isSome.mpr hMem)
    refine ⟨id, ?_⟩
    rw [findId, hGraph, Result.ok_bind, hConvert, Result.ok_bind, getId_eq_ok.mpr hId]

/-! ### The four methods -/

theorem unharmed_getTaquin_iff (h : Supplied c.graphs) (size : Int) :
    c.Unharmed (.getTaquin size) ↔ c.Safe (.getTaquin size) := by
  constructor
  · intro hUnharmed
    by_contra hSafe
    rw [Safe, not_or] at hSafe
    obtain ⟨hne, hNone⟩ := hSafe
    cases hGet : listGet c.graphs (toInt (size - 2)) with
    | ok g => exact hNone ⟨g, hGet⟩
    | error e =>
      have hThrow : (c.getTaquin size).2 = .error e := by
        simp only [getTaquin, hGet, Result.error_bind]
      exact hne (hUnharmed e hThrow).1.1
  · rintro (hSame | ⟨g, hGet⟩)
    · apply unharmed_of_eq
      simp only [perform, getTaquin, hSame]
    · obtain ⟨n, -, -, hn, num, hg⟩ := h.solved hGet
      obtain ⟨f, hf, hLt, -⟩ := hg.farthest
      exact unharmed_of_ok (getTaquin_eq hg hGet hf (List.getElem?_eq_getElem hLt))

theorem unharmed_solveTaquin_iff (h : Supplied c.graphs) (matriz : Text) :
    c.Unharmed (.solveTaquin matriz) ↔ c.Safe (.solveTaquin matriz) := by
  rw [Safe, ← exists_findId_iff]
  cases hFind : c.findId matriz with
  | error e =>
    have hFind' : ({ c with step := 1 } : TaquinClient).findId matriz = .error e := hFind
    have hThrow : c.solveTaquin matriz = ({ c with step := 1 }, .error e) := by
      simp only [solveTaquin, hFind']
    constructor
    · intro hUnharmed
      have := (hUnharmed e (by rw [perform, hThrow])).1.2.1
      rw [perform, hThrow] at this
      exact .inl this.symm
    · rintro (hStep | ⟨id, hId⟩)
      · apply unharmed_of_eq
        rw [perform, hThrow, ← hStep]
      · cases hId
  | ok id =>
    refine iff_of_true ?_ (.inr ⟨id, rfl⟩)
    obtain ⟨g, hGraph, hRest⟩ := Result.bind_eq_ok.mp hFind
    obtain ⟨bs, -, hId⟩ := Result.bind_eq_ok.mp hRest
    obtain ⟨n, -, -, hn, num, hg⟩ := h.solved hGraph
    obtain ⟨v, rfl, nd, hnd, -⟩ := (hg.lookup bs id).mp (getId_eq_ok.mp hId)
    have hLt := (List.getElem?_eq_some_iff.mp hnd).1
    have hSolve := (solveTaquin_of_findId hGraph hg hFind (hg.length ▸ hLt)).2
    exact unharmed_of_ok (by rw [perform, hSolve])

theorem unharmed_solveNextStep (h : Supplied c.graphs) : c.Unharmed .solveNextStep := by
  cases hParent : c.parentId with
  | error e => exact unharmed_of_eq (by simp only [perform, solveNextStep, hParent])
  | ok id =>
    obtain ⟨g, hGraph, hId⟩ := Result.bind_eq_ok.mp hParent
    obtain ⟨n, -, -, hn, num, hg⟩ := h.solved hGraph
    obtain ⟨v, hv, hp⟩ := listGet_eq_ok.mp hId
    have hLt := (List.getElem?_eq_some_iff.mp hp).1
    rw [hg.parents, List.length_map, hg.complete.length] at hLt
    have hWork : Working hn num c v := ⟨⟨g, hGraph, hg⟩, hv, hLt⟩
    have hReply := (hWork.move hWork.parent_bound (c.step + 1)).stepReply_eq
    apply unharmed_of_ok
    simp only [perform, solveNextStep, hWork.parentId_eq]
    exact hReply

end TaquinClient

/-- With the graphs of the constructor, in any state of the other fields: a call that throws leaves
the client as it was exactly when it is safe. -/
theorem unharmed_iff_safe (pq : PriorityQueue TripleComparator.compare) (username : Text)
    (c c' : TaquinClient) (hNew : TaquinClient.new pq username = .ok c')
    (hGraphs : c.graphs = c'.graphs) (op : Operation) : c.Unharmed op ↔ c.Safe op := by
  have h : Supplied c.graphs := hGraphs ▸ (new_supplied hNew).2
  cases op with
  | getTaquin size => exact TaquinClient.unharmed_getTaquin_iff h size
  | solveTaquin matriz => exact TaquinClient.unharmed_solveTaquin_iff h matriz
  | solveNextStep => exact iff_of_true (TaquinClient.unharmed_solveNextStep h) trivial
  | errorStep => exact iff_of_true (TaquinClient.unharmed_of_eq rfl) trivial

/-- A new client that is asked for the size 7, which it has no graph of. -/
theorem unharmed_iff_safe_getTaquin :
    ∃ c : TaquinClient, TaquinClient.new tripleQueue [] = .ok c ∧ ¬c.Safe (.getTaquin 7) ∧
      ¬c.Unharmed (.getTaquin 7) := by
  obtain ⟨c, g2, g3, hNew, hc, -⟩ := exists_new tripleQueue []
  have hUnsafe : ¬c.Safe (.getTaquin 7) := by
    rw [TaquinClient.Safe, show toInt (7 - 2) = 5 by decide, hc, not_or]
    refine ⟨show (5 : ℤ) ≠ 0 by decide, ?_⟩
    rintro ⟨g, hGraph⟩
    cases hGraph
  exact ⟨c, hNew, hUnsafe, (unharmed_iff_safe tripleQueue [] c c hNew rfl (.getTaquin 7)).not.mpr
    hUnsafe⟩

/-- A new client that is asked for the size 7 throws, has 5 as its size from then on, and does not
answer the next error as it would have.  A text that is no number resets its step counter. -/
theorem harmed_by_requests :
    ∃ (c : TaquinClient) (e : Failure), TaquinClient.new tripleQueue [] = .ok c ∧
      (c.getTaquin 7).2 = .error e ∧ (c.getTaquin 7).1.size ≠ c.size ∧
      (c.getTaquin 7).1.answers [.errorSolve] ≠ c.answers [.errorSolve] ∧
      ¬c.Unharmed (.getTaquin 7) ∧ ¬c.Unharmed (.solveTaquin ['x']) := by
  obtain ⟨c, g2, g3, hNew, hc, -⟩ := exists_new tripleQueue []
  obtain ⟨-, hSupplied⟩ := new_supplied hNew
  have hGraph : listGet c.graphs c.size = .ok g2 := by
    rw [hc]
    rfl
  have hNone : listGet c.graphs 5 = .error .indexOutOfBounds := by
    rw [hc]
    rfl
  have hThrow : c.getTaquin 7 = ({ c with size := 5 }, .error .indexOutOfBounds) := by
    simp only [TaquinClient.getTaquin, show toInt (7 - 2) = 5 by decide, hNone, Result.error_bind]
  have hHarm : (c.getTaquin 7).1.size ≠ c.size := by
    rw [hThrow, hc]
    exact show (5 : ℤ) ≠ 0 by decide
  refine ⟨c, _, hNew, by rw [hThrow], hHarm, ?answers, fun h => ?_, fun h => ?text⟩
  case answers =>
    obtain ⟨n, -, -, hn, num, hg⟩ := hSupplied.solved hGraph
    have hWork : Working hn num c 0 :=
      ⟨⟨g2, hGraph, hg⟩, by rw [hc]; rfl, (List.getElem?_eq_some_iff.mp hg.complete.seen_zero).1⟩
    have hBefore : (c.handle .errorSolve).2 ≠ [] := by
      rw [hWork.handle_error]
      exact List.cons_ne_nil _ _
    have hAfter : (({ c with size := 5 } : TaquinClient).handle .errorSolve).2 = [] := by
      simp only [TaquinClient.handle, TaquinClient.errorStep, TaquinClient.stepReply, hNone,
        Result.error_bind, TaquinClient.emit]
    rw [hThrow, TaquinClient.answers, TaquinClient.answers, hAfter]
    exact fun hEq => hBefore (List.cons.inj hEq).1.symm
  · exact hHarm (h .indexOutOfBounds (by rw [TaquinClient.perform, hThrow])).1.1
  case text =>
    rcases (TaquinClient.unharmed_solveTaquin_iff hSupplied _).mp h with
      hStep | ⟨g, bs, -, hConvert, -⟩
    · rw [hc] at hStep
      cases hStep
    · rw [Utils.convertToStringtTBitset, show split ' ' ['x'] = [['x']] by decide,
        Utils.storeTokens, show parseInt ['x'] = .error .numberFormat by decide] at hConvert
      cases hConvert

end TaquinSolver
