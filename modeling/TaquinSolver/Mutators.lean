import TaquinSolver.Solver

/-! The store of a graph under its public mutators.  `Consistent` is what the constructor leaves,
and what `addNode` and `addEdge` keep as long as no edge is added from a known number to an unknown
one: then `addEdge` throws after it has extended the first list, while every other call that throws
changes nothing (`consistent_iff`).  This does not depend on the boards that the constructor adds,
so it includes the sizes whose square is not an `int` (`Built`). -/

namespace TaquinSolver

open Java Sliding Search Search.Bfs

/-- A call of a public mutator. -/
inductive Mutation
  | addNode (bs : Option BitSet) (iPuzzle jPuzzle : Int)
  | addEdge (id1 id2 : Int)
  deriving DecidableEq, Repr

namespace Graph

/-- The graph that a call leaves, and its result. -/
def call (g : Graph) : Mutation → Graph × Result Bool
  | .addNode bs iPuzzle jPuzzle =>
    ((g.addNode bs iPuzzle jPuzzle).1, .ok (g.addNode bs iPuzzle jPuzzle).2)
  | .addEdge id1 id2 => g.addEdge id1 id2

/-- The graph after a list of calls, some of which may have thrown. -/
def afterCalls (g : Graph) (ms : List Mutation) : Graph := ms.foldl (fun g m => (g.call m).1) g

/-- `id` is the number of a list. -/
def HasNode (g : Graph) (id : Int) : Prop := 0 ≤ id ∧ id < g.graph.length

/-- What the constructor can do to the store, whatever numbers it reads from its boards: it adds
nodes, it adds edges and goes on if `addEdge` returns, and it sets the fields of `dijkstra`. -/
inductive Built : Graph → Prop
  | empty (n : Int) (t : Taquin) : Built (.empty n t)
  | addNode {g : Graph} (h : Built g) (bs : Option BitSet) (iPuzzle jPuzzle : Int) :
      Built (g.addNode bs iPuzzle jPuzzle).1
  | addEdge {g : Graph} (h : Built g) {id1 id2 : Int} {b : Bool}
      (hOk : (g.addEdge id1 id2).2 = .ok b) : Built (g.addEdge id1 id2).1
  | dijkstra {g : Graph} (h : Built g) (parents : List Int) (farthestNode : Int) :
      Built { g with parents := parents, farthestNode := farthestNode }

end Graph

/-- How often `v` is in the list of `u`. -/
def occurrences (graph : List (List Int)) (u v : ℕ) : ℕ := (graph.getD u []).count (v : ℤ)

structure Consistent (g : Graph) : Prop where
  idsSize : g.ids.entries.length = g.reverseIds.length
  graphSize : g.graph.length = g.reverseIds.length
  inverse : Indexes g.ids g.reverseIds
  wellFormed : WellFormed g.graph
  symmetric : ∀ u v, occurrences g.graph u v = occurrences g.graph v u

variable {g : Graph}

/-! ### What the mutators do -/

theorem hasNode_iff {id : Int} :
    g.HasNode id ↔ ∃ (a : ℕ) (l : List Int), id = a ∧ g.graph[a]? = some l := by
  constructor
  · rintro ⟨h0, hLt⟩
    obtain ⟨a, rfl⟩ := Int.eq_ofNat_of_zero_le h0
    exact ⟨a, _, rfl, List.getElem?_eq_getElem (by exact_mod_cast hLt)⟩
  · rintro ⟨a, l, rfl, hl⟩
    exact ⟨Int.natCast_nonneg a, by exact_mod_cast (List.getElem?_eq_some_iff.mp hl).1⟩

theorem listGet_of_not_hasNode {id : Int} (h : ¬g.HasNode id) :
    ∃ e, listGet g.graph id = .error e := by
  cases hGet : listGet g.graph id with
  | error e => exact ⟨e, rfl⟩
  | ok l =>
    obtain ⟨a, rfl, hl⟩ := listGet_eq_ok.mp hGet
    exact absurd (hasNode_iff.mpr ⟨a, l, rfl, hl⟩) h

/-- `addEdge` throws at once, or throws after its first update, or updates both lists. -/
theorem addEdge_cases (g : Graph) (id1 id2 : Int) :
    (¬g.HasNode id1 ∧ ∃ e, g.addEdge id1 id2 = (g, .error e)) ∨
    (∃ (a : ℕ) (l1 : List Int), id1 = a ∧ g.graph[a]? = some l1 ∧ ¬g.HasNode id2 ∧
      ∃ e, g.addEdge id1 id2 =
        ({ g with graph := g.graph.set a (l1 ++ [id2]) }, .error e)) ∨
    ∃ (a b : ℕ) (l1 l2 : List Int), id1 = a ∧ id2 = b ∧ g.graph[a]? = some l1 ∧
      (g.graph.set a (l1 ++ [id2]))[b]? = some l2 ∧ g.addEdge id1 id2 =
        ({ g with graph := (g.graph.set a (l1 ++ [id2])).set b (l2 ++ [id1]) }, .ok true) := by
  by_cases h1 : g.HasNode id1
  · right
    obtain ⟨a, l1, rfl, hl1⟩ := hasNode_iff.mp h1
    have hFirst := listGet_natCast.mpr hl1
    have hKeep : ∀ id, ({ g with graph := g.graph.set a (l1 ++ [id2]) } : Graph).HasNode id ↔
        g.HasNode id := fun id => by
      rw [Graph.HasNode, Graph.HasNode, List.length_set]
    by_cases h2 : g.HasNode id2
    · right
      obtain ⟨b, l2, rfl, hl2⟩ := hasNode_iff.mp ((hKeep id2).mpr h2)
      refine ⟨a, b, l1, l2, rfl, rfl, hl1, hl2, ?_⟩
      simp only [Graph.addEdge, hFirst, Int.toNat_natCast, listGet_natCast.mpr hl2]
    · left
      obtain ⟨e, he⟩ := listGet_of_not_hasNode fun h => h2 ((hKeep id2).mp h)
      refine ⟨a, l1, rfl, hl1, h2, e, ?_⟩
      simp only [Graph.addEdge, hFirst, Int.toNat_natCast] at he ⊢
      rw [he]
  · left
    obtain ⟨e, he⟩ := listGet_of_not_hasNode h1
    exact ⟨h1, e, by rw [Graph.addEdge, he]⟩

theorem set_concat_ne {graph : List (List Int)} {a : ℕ} {l : List Int} (hl : graph[a]? = some l)
    (x : Int) : graph.set a (l ++ [x]) ≠ graph := by
  intro hSame
  have hLt := (List.getElem?_eq_some_iff.mp hl).1
  have hList := congrArg (fun graph => graph[a]?) hSame
  simp only [List.getElem?_set_self hLt, hl, Option.some.injEq] at hList
  simpa using congrArg List.length hList

/-! ### What they keep -/

theorem occurrences_set {graph : List (List Int)} {a : ℕ} {l : List Int} (hl : graph[a]? = some l)
    (x : Int) (u v : ℕ) : occurrences (graph.set a (l ++ [x])) u v =
      occurrences graph u v + if u = a ∧ x = v then 1 else 0 := by
  have hLt := (List.getElem?_eq_some_iff.mp hl).1
  rw [occurrences, occurrences, List.getD_eq_getElem?_getD, List.getD_eq_getElem?_getD]
  by_cases hu : u = a
  · subst hu
    rw [List.getElem?_set_self hLt, hl, Option.getD_some, Option.getD_some, List.count_append,
      List.count_singleton]
    simp
  · rw [List.getElem?_set_ne (Ne.symm hu), if_neg (fun h => hu h.1), Nat.add_zero]

theorem wellFormed_set {graph : List (List Int)} (h : WellFormed graph) {a : ℕ} {l : List Int}
    (hl : graph[a]? = some l) {x : Int} (hx : 0 ≤ x ∧ x < graph.length) :
    WellFormed (graph.set a (l ++ [x])) := by
  intro l' hl' v hv
  rw [List.length_set]
  rcases List.mem_or_eq_of_mem_set hl' with hOld | rfl
  · exact h l' hOld v hv
  · rcases List.mem_append.mp hv with hv | hv
    · exact h l (List.mem_of_getElem? hl) v hv
    · rw [List.mem_singleton.mp hv]
      exact hx

namespace Consistent

theorem addNode (h : Consistent g) (bs : Option BitSet) (iPuzzle jPuzzle : Int) :
    Consistent (g.addNode bs iPuzzle jPuzzle).1 := by
  cases bs with
  | none => exact h
  | some bs =>
    by_cases hMem : bs ∈ g.ids
    · rw [Graph.addNode, if_pos hMem]
      exact h
    rw [addNode_eq hMem]
    have hFresh : (⟨bs, iPuzzle, jPuzzle⟩ : Node).taquinBS ∉ g.ids := hMem
    constructor
    case idsSize =>
      simp only [AList.entries_insert_of_notMem hMem, List.length_cons, List.length_append,
        List.length_nil, h.idsSize]
    case graphSize => simp [h.graphSize]
    case inverse => exact h.inverse.insert hFresh
    case wellFormed =>
      intro l hl v hv
      rcases List.mem_append.mp hl with hl | hl
      · obtain ⟨h0, hLt⟩ := h.wellFormed l hl v hv
        rw [List.length_append]
        exact ⟨h0, by push_cast; omega⟩
      · rw [List.mem_singleton.mp hl] at hv
        cases hv
    case symmetric =>
      have hSame : ∀ u v, occurrences (g.graph ++ [[]]) u v = occurrences g.graph u v := by
        intro u v
        rw [occurrences, occurrences, List.getD_eq_getElem?_getD, List.getD_eq_getElem?_getD]
        rcases Nat.lt_trichotomy u g.graph.length with hu | rfl | hu
        · rw [List.getElem?_append_left hu]
        · simp
        · rw [List.getElem?_eq_none (by simp; omega), List.getElem?_eq_none hu.le]
      intro u v
      rw [hSame, hSame, h.symmetric]

/-- An edge between two numbers of nodes is recorded at both ends. -/
theorem addEdge (h : Consistent g) {a b : ℕ} {l1 l2 : List Int} (hl1 : g.graph[a]? = some l1)
    (hl2 : (g.graph.set a (l1 ++ [(b : ℤ)]))[b]? = some l2) :
    Consistent { g with graph := (g.graph.set a (l1 ++ [(b : ℤ)])).set b (l2 ++ [(a : ℤ)]) } := by
  have ha := (List.getElem?_eq_some_iff.mp hl1).1
  have hb := (List.getElem?_eq_some_iff.mp hl2).1
  rw [List.length_set] at hb
  constructor
  case idsSize => exact h.idsSize
  case graphSize => simpa using h.graphSize
  case inverse => exact h.inverse
  case wellFormed =>
    have hFirst := wellFormed_set h.wellFormed hl1 (x := b) ⟨by omega, by exact_mod_cast hb⟩
    exact wellFormed_set hFirst hl2 ⟨by omega, by rw [List.length_set]; exact_mod_cast ha⟩
  case symmetric =>
    intro u v
    simp only [occurrences_set hl2, occurrences_set hl1, Nat.cast_inj]
    rw [h.symmetric u v]
    split_ifs <;> omega

theorem addEdge_of_ok (h : Consistent g) {id1 id2 : Int} {b : Bool}
    (hOk : (g.addEdge id1 id2).2 = .ok b) : Consistent (g.addEdge id1 id2).1 := by
  rcases addEdge_cases g id1 id2 with ⟨-, e, hCall⟩ | ⟨a, l1, -, -, -, e, hCall⟩ |
    ⟨a, b, l1, l2, rfl, rfl, hl1, hl2, hCall⟩
  · rw [hCall] at hOk
    cases hOk
  · rw [hCall] at hOk
    cases hOk
  · rw [hCall]
    exact h.addEdge hl1 hl2

/-- A call keeps the store consistent unless it adds an edge from a known number to an unknown one,
and leaves it as it was when it throws. -/
theorem call (h : Consistent g) {m : Mutation}
    (hEdge : ∀ id1 id2, m = .addEdge id1 id2 → g.HasNode id1 → g.HasNode id2) :
    Consistent (g.call m).1 ∧ ∀ e, (g.call m).2 = .error e → (g.call m).1 = g := by
  cases m with
  | addNode bs iPuzzle jPuzzle => exact ⟨h.addNode bs iPuzzle jPuzzle, fun e he => by cases he⟩
  | addEdge id1 id2 =>
    rw [Graph.call]
    rcases addEdge_cases g id1 id2 with ⟨-, e, hCall⟩ | ⟨a, l1, rfl, hl1, h2, -⟩ |
      ⟨a, b, l1, l2, rfl, rfl, hl1, hl2, hCall⟩
    · rw [hCall]
      exact ⟨h, fun _ _ => rfl⟩
    · exact absurd (hEdge a id2 rfl (hasNode_iff.mpr ⟨a, l1, rfl, hl1⟩)) h2
    · rw [hCall]
      exact ⟨h.addEdge hl1 hl2, fun e he => by cases he⟩

end Consistent

/-! ### Construction -/

theorem consistent_empty (n : Int) (t : Taquin) : Consistent (Graph.empty n t) where
  idsSize := rfl
  graphSize := rfl
  inverse := indexes_nil
  wellFormed := fun l hl => by cases hl
  symmetric := fun _ _ => rfl

theorem Consistent.of_built (h : g.Built) : Consistent g := by
  induction h with
  | empty n t => exact consistent_empty n t
  | addNode _ bs iPuzzle jPuzzle ih => exact ih.addNode bs iPuzzle jPuzzle
  | addEdge _ hOk ih => exact ih.addEdge_of_ok hOk
  | dijkstra _ _ _ ih =>
    exact ⟨ih.idsSize, ih.graphSize, ih.inverse, ih.wellFormed, ih.symmetric⟩

section Construction

variable {s s' : Graph.Build}

theorem built_tryMove {currID currI currJ : Int} {d : Int × Int} (h : s.graph.Built)
    (hTry : Graph.tryMove currID currI currJ s d = .ok s') : s'.graph.Built := by
  rw [Graph.tryMove] at hTry
  split at hTry
  · obtain ⟨nd, -, hTry⟩ := Result.bind_eq_ok.mp hTry
    obtain ⟨move, -, hTry⟩ := Result.bind_eq_ok.mp hTry
    obtain ⟨bs1, -, hTry⟩ := Result.bind_eq_ok.mp hTry
    obtain ⟨tem, -, hTry⟩ := Result.bind_eq_ok.mp hTry
    split at hTry
    · obtain ⟨id, -, hTry⟩ := Result.bind_eq_ok.mp hTry
      obtain ⟨b, hAdded, hTry⟩ := Result.bind_eq_ok.mp hTry
      cases hTry
      exact (h.addNode _ _ _).addEdge hAdded
    · cases hTry
      exact h
  · cases hTry
    exact h

theorem built_expandNode (h : s.graph.Built) (hExpand : Graph.expandNode s = .ok s') :
    s'.graph.Built := by
  rw [Graph.expandNode] at hExpand
  split at hExpand
  · cases hExpand
  · refine foldlM_invariant (P := fun s : Graph.Build => s.graph.Built) ?_ ?_ hExpand
    · exact fun _ _ _ => built_tryMove
    · exact h

theorem built_creatGraph {g' : Graph} (h : g.Built) (hCreate : g.creatGraph = .ok g') :
    g'.Built := by
  rw [Graph.creatGraph] at hCreate
  obtain ⟨s, hStart, hRest⟩ := Result.bind_eq_ok.mp hCreate
  obtain ⟨s', hLoop, hEnd⟩ := Result.bind_eq_ok.mp hRest
  rw [Graph.startBuild] at hStart
  obtain ⟨id, -, hStart⟩ := Result.bind_eq_ok.mp hStart
  cases hStart
  cases hEnd
  exact whileLoop_invariant (P := fun s : Graph.Build => s.graph.Built)
    (fun _ _ => built_expandNode) (h.addNode _ _ _) hLoop

theorem built_dijkstra {pq : PriorityQueue TripleComparator.compare} {g' : Graph} (h : g.Built)
    (hDijkstra : g.dijkstra pq = .ok g') : g'.Built := by
  rw [Graph.dijkstra] at hDijkstra
  obtain ⟨_, -, hEnd⟩ := Result.bind_eq_ok.mp hDijkstra
  cases hEnd
  exact h.dijkstra _ _

/-- The constructor builds its store so, for any argument for which it returns. -/
theorem built_new {pq : PriorityQueue TripleComparator.compare} {n : Int}
    (hNew : Graph.new pq n = .ok g) : g.Built := by
  rw [Graph.new] at hNew
  obtain ⟨t, -, hNew⟩ := Result.bind_eq_ok.mp hNew
  obtain ⟨g', hCreate, hDijkstra⟩ := Result.bind_eq_ok.mp hNew
  exact built_dijkstra (built_creatGraph (.empty n t) hCreate) hDijkstra

end Construction

/-! ### Runs -/

theorem afterCalls_concat (g : Graph) (ms : List Mutation) (m : Mutation) :
    g.afterCalls (ms ++ [m]) = ((g.afterCalls ms).call m).1 := by
  rw [Graph.afterCalls, List.foldl_append]
  rfl

/-- From a constructed graph on, the store is consistent in every state of a run and no call that
throws changes it, exactly when no edge is added from a known number to an unknown one. -/
theorem consistent_iff (g : Graph) (hBuilt : g.Built) (ms : List Mutation) :
    ((∀ pre, pre <+: ms → Consistent (g.afterCalls pre)) ∧
      ∀ pre m e, pre ++ [m] <+: ms → ((g.afterCalls pre).call m).2 = .error e →
        ((g.afterCalls pre).call m).1.ids = (g.afterCalls pre).ids ∧
        ((g.afterCalls pre).call m).1.reverseIds = (g.afterCalls pre).reverseIds ∧
        ((g.afterCalls pre).call m).1.graph = (g.afterCalls pre).graph) ↔
    ∀ pre id1 id2, pre ++ [.addEdge id1 id2] <+: ms → (g.afterCalls pre).HasNode id1 →
      (g.afterCalls pre).HasNode id2 := by
  constructor
  · rintro ⟨-, hThrow⟩ pre id1 id2 hPre h1
    by_contra h2
    rcases addEdge_cases (g.afterCalls pre) id1 id2 with ⟨hNot, -⟩ |
      ⟨a, l1, rfl, hl1, -, e, hCall⟩ | ⟨a, b, l1, l2, rfl, rfl, -, hl2, -⟩
    · exact hNot h1
    · obtain ⟨-, -, hSame⟩ := hThrow pre (.addEdge a id2) e hPre (by rw [Graph.call, hCall])
      rw [Graph.call, hCall] at hSame
      exact set_concat_ne hl1 id2 hSame
    · refine h2 (hasNode_iff.mpr ?_)
      have hLt := (List.getElem?_eq_some_iff.mp hl2).1
      rw [List.length_set] at hLt
      exact ⟨b, _, rfl, List.getElem?_eq_getElem hLt⟩
  · intro hEdge
    have hAll : ∀ pre, pre <+: ms → Consistent (g.afterCalls pre) := by
      intro pre
      induction pre using List.reverseRecOn with
      | nil => exact fun _ => .of_built hBuilt
      | append_singleton pre m ih =>
        intro hPre
        have h := ih ((List.prefix_append pre [m]).trans hPre)
        rw [afterCalls_concat]
        exact (h.call fun id1 id2 hm => hEdge pre id1 id2 (hm ▸ hPre)).1
    refine ⟨hAll, fun pre m e hPre hError => ?_⟩
    have h := hAll pre ((List.prefix_append pre [m]).trans hPre)
    have hSame := (h.call fun id1 id2 hm => hEdge pre id1 id2 (hm ▸ hPre)).2 e hError
    rw [hSame]
    exact ⟨rfl, rfl, rfl⟩

/-- The board of number 1 gets a second edge to the goal, and an edge from no board throws. -/
theorem consistent_iff_two :
    ∃ g, Graph.new tripleQueue 2 = .ok g ∧
      (∀ pre, pre <+: [.addNode none 0 0, .addEdge 0 1, .addEdge (-1) 0] →
        Consistent (g.afterCalls pre)) ∧
      ∀ pre m e, pre ++ [m] <+: [.addNode none 0 0, .addEdge 0 1, .addEdge (-1) 0] →
        ((g.afterCalls pre).call m).2 = .error e →
        ((g.afterCalls pre).call m).1.ids = (g.afterCalls pre).ids ∧
        ((g.afterCalls pre).call m).1.reverseIds = (g.afterCalls pre).reverseIds ∧
        ((g.afterCalls pre).call m).1.graph = (g.afterCalls pre).graph := by
  obtain ⟨_, _, _, -, -, -, -, hAll⟩ := new_solved (n := 2) (by decide) (by decide)
  obtain ⟨g, hNew, hg⟩ := hAll tripleQueue
  have hMove : Move (goal 2) (slide (goal 2) (1, 1) (1, 0)) :=
    ⟨_, _, (isBlank_goal_iff _).mpr (by decide), by decide, rfl⟩
  obtain ⟨v, hv⟩ := List.getElem?_of_mem ((mem_seen_iff_solvable hg.complete).mpr (.single hMove))
  have hLt := (List.getElem?_eq_some_iff.mp hv).1
  have hOne : g.HasNode 1 := by
    have hv0 : v ≠ 0 := by
      rintro rfl
      rw [hg.complete.seen_zero] at hv
      exact absurd (congrArg (fun b : Board 2 => b (1, 0)) (Option.some.inj hv)) (by decide)
    rw [← hg.length_graph hg.complete] at hLt
    exact ⟨by decide, by omega⟩
  refine ⟨g, hNew, (consistent_iff g (built_new hNew) _).mpr ?_⟩
  rintro pre id1 id2 ⟨post, hPost⟩ h1
  rcases pre with _ | ⟨m, _ | ⟨m', _ | ⟨_, pre⟩⟩⟩
  · cases hPost
  · cases hPost
    exact hOne
  · cases hPost
    exact absurd h1.1 (by decide)
  · have := congrArg List.length hPost
    simp at this

/-- An edge from the goal to -1 throws, and leaves -1 in the list of the goal. -/
theorem inconsistent_after_addEdge :
    ∃ g e, Graph.new tripleQueue 2 = .ok g ∧ (g.call (.addEdge 0 (-1))).2 = .error e ∧
      (g.call (.addEdge 0 (-1))).1.graph ≠ g.graph ∧
      ¬Consistent (g.afterCalls [.addEdge 0 (-1)]) := by
  obtain ⟨_, _, _, -, -, -, hLast, hAll⟩ := new_solved (n := 2) (by decide) (by decide)
  obtain ⟨g, hNew, hg⟩ := hAll tripleQueue
  have hPos := List.length_pos_iff.mpr (hg.graph_ne_nil hg.complete)
  rcases addEdge_cases g 0 (-1) with ⟨h0, -⟩ | ⟨a, l1, ha, hl1, -, e, hCall⟩ |
    ⟨_, b, _, _, -, hb, -⟩
  · exact absurd ⟨le_refl 0, by exact_mod_cast hPos⟩ h0
  · have hLt := (List.getElem?_eq_some_iff.mp hl1).1
    have hBad : l1 ++ [-1] ∈ g.graph.set a (l1 ++ [-1]) := List.mem_set hLt _
    refine ⟨g, e, hNew, by rw [Graph.call, hCall], ?_, fun h => ?_⟩
    · rw [Graph.call, hCall]
      exact set_concat_ne hl1 (-1)
    · rw [Graph.afterCalls, List.foldl_cons, List.foldl_nil, Graph.call, hCall] at h
      have := (h.wellFormed _ hBad (-1) (by simp)).1
      omega
  · omega

end TaquinSolver
