import TaquinSolver.SpanningTree

/-! How long the constructor of `Graph` takes.  The loop of `creatGraph` polls one board in each
iteration, in the order of their numbers, and the loop of `dijkstra` polls the start and each end of
each edge of the tree once (`exact_work`).  Every iteration returns, so no index is out of range. -/

namespace TaquinSolver

open Java Sliding Search Search.Bfs

variable {n : ℕ}

/-- The iteration of the loop of `creatGraph` after the first `k` ones polls the board `b`. -/
def Graph.Polls (s : Graph.Build) (k : ℕ) (b : Board n) : Prop :=
  ∃ r triple rest, Iterates Graph.nonempty Graph.expandNode k s r ∧ r.queue = triple :: rest ∧
    r.graph.IsBoard triple.first b

section Polls

variable {hn : 0 < n} {s : Graph.Build} {last : ℕ}

theorem polls_iff (hs : Building hn (numbering (next hn) (goal n) 0) 0 s)
    (hk : (numbering (next hn) (goal n) last).seen.length = last) {k : ℕ} {b : Board n} :
    Graph.Polls s k b ↔ (numbering (next hn) (goal n) last).seen[k]? = some b := by
  constructor
  · rintro ⟨r, triple, rest, hIter, hQueue, hBoard⟩
    have hr := building_of_iterates hIter hs
    rw [Nat.zero_add] at hr
    have hCond : Graph.nonempty r = true := by
      rw [Graph.nonempty, hQueue]
      rfl
    obtain ⟨nd, -, hHead⟩ := hr.queue_cons (List.getElem?_eq_getElem ((nonempty_iff hr).mp hCond))
    obtain ⟨rfl, -⟩ := List.cons.inj (hQueue.symm.trans hHead)
    exact getElem?_of_isPrefix (numbering_isPrefix_last hk k).1 (hr.stores.isBoard_iff.mp hBoard)
  · intro hb
    have hLt := (List.getElem?_eq_some_iff.mp hb).1
    rw [hk] at hLt
    obtain ⟨r, hIter, hr⟩ := exists_iterates_building hs fun j hj =>
      lt_length_numbering hk (hj.trans hLt)
    have hbr := List.getElem?_eq_getElem (lt_length_numbering hk hLt)
    obtain ⟨nd, -, hQueue⟩ := hr.queue_cons hbr
    have hSame := getElem?_of_isPrefix (numbering_isPrefix_last hk k).1 hbr
    obtain rfl : b = _ := Option.some.inj (hb.symm.trans hSame)
    exact ⟨r, _, _, hIter, hQueue, hr.stores.isBoard_iff.mpr hbr⟩

/-- The boards that moves reach are as many as the numbers. -/
theorem card_solvable
    (hComplete : Complete (next hn) (goal n) (numbering (next hn) (goal n) last)) :
    Nat.card {b : Board n // Solvable b} = (numbering (next hn) (goal n) last).seen.length := by
  rw [← List.toFinset_card_of_nodup hComplete.nodup]
  refine Nat.subtype_card _ fun b => ?_
  rw [List.mem_toFinset, mem_seen_iff_solvable hComplete]

end Polls

/-! ### `dijkstra` -/

/-- Nothing is left to queue once all nodes are settled. -/
theorem unusedEdges_eq_zero {graph : List (List Int)} {marks : List Bool}
    (h : ∀ v : ℕ, marks[v]? ≠ some true) : unusedEdges graph marks = 0 := by
  induction marks generalizing graph with
  | nil => rfl
  | cons mark marks ih =>
    cases graph with
    | nil => rfl
    | cons l graph =>
      have hMark : mark = false := Bool.eq_false_iff.mpr fun hTrue => h 0 (by rw [hTrue]; rfl)
      have hRest : unusedEdges graph marks = 0 := ih fun v => h (v + 1)
      rw [unusedEdges] at hRest
      rw [hMark, unusedEdges, List.zipWith_cons_cons, List.sum_cons, hRest]
      rfl

/-- Every board but the goal adds two entries to the lists. -/
theorem Stores.sum_length {hn : 0 < n} {num : Discovery (Board n)} {g : Graph}
    (h : Stores hn num g) (hComplete : Complete (next hn) (goal n) num) :
    (g.graph.map List.length).sum + 2 = 2 * num.seen.length := by
  have hne : num.parents ≠ [] := by
    intro hNil
    have := hComplete.parent_zero
    rw [hNil] at this
    cases this
  have hLt : ∀ v p : ℕ, num.parents[v]? = some p → p ≤ v ∧ (0 < v → p < v) := by
    intro v p hp
    refine ⟨?_, fun h0 => (hComplete.parent_lt v p h0 hp).1⟩
    rcases Nat.eq_zero_or_pos v with rfl | h0
    · rw [hComplete.parent_zero] at hp
      exact (Option.some.inj hp).ge
    · exact (hComplete.parent_lt v p h0 hp).1.le
  have hSum := sum_length_tree hne hLt
  rw [hComplete.length] at hSum
  rw [← hSum, h.graph]
  simp only [List.map_map, Function.comp_def, List.length_map]

/-- `dijkstra` polls the triple of the start, and one for each entry of each list. -/
theorem Stores.iterates_settle {hn : 0 < n} {num : Discovery (Board n)} {g : Graph}
    (h : Stores hn num g) (hComplete : Complete (next hn) (goal n) num)
    (pq : PriorityQueue TripleComparator.compare) :
    ∃ u, Iterates (Graph.unfinished pq) (Graph.settle pq g.graph) (2 * num.seen.length - 1)
      (Graph.startSearch pq g.graph) u ∧ Graph.unfinished pq u = false := by
  obtain ⟨k, u, hIter, hStop, hu, hCount, hSettled⟩ :=
    exists_settled pq (h.graph_ne_nil hComplete) (h.wellFormed hComplete)
  have hAll : ∀ v : ℕ, u.marks[v]? ≠ some true := by
    intro v hv
    have hvLt : v < num.seen.length := by
      rw [← h.length_graph hComplete, ← hu.marks]
      exact (List.getElem?_eq_some_iff.mp hv).1
    have hDist := hComplete.tree_isDist hvLt
    rw [← h.edge_eq] at hDist
    rw [(hSettled v).mpr ⟨_, hDist.1⟩] at hv
    cases hv
  have hSum := h.sum_length hComplete
  rw [work, elems_of_finished hStop, unusedEdges_eq_zero hAll, Multiset.card_zero] at hCount
  obtain rfl : k = 2 * num.seen.length - 1 := by omega
  exact ⟨u, hIter, hStop⟩

/-! ### The constructor -/

/-- The constructor returns.  The loop of `creatGraph` polls each board that moves reach from the
goal in one of its iterations, which are as many as these boards, and the loop of `dijkstra`, which
leaves the parents and the farthest board, makes twice as many iterations, less one. -/
theorem exact_work (pq : PriorityQueue TripleComparator.compare) (n : ℕ) (hn : 1 ≤ n)
    (hn' : n ≤ 256) :
    ∃ t s r u g, Taquin.new n = .ok t ∧ Graph.startBuild (Graph.empty n t) = .ok s ∧
      Iterates Graph.nonempty Graph.expandNode (Nat.card {b : Board n // Solvable b}) s r ∧
      Graph.nonempty r = false ∧ (Graph.empty n t).creatGraph = .ok r.graph ∧
      (∀ (k : ℕ) (b : Board n), Graph.Polls s k b →
        k < Nat.card {b : Board n // Solvable b} ∧ Solvable b) ∧
      (∀ k < Nat.card {b : Board n // Solvable b}, ∃! b : Board n, Graph.Polls s k b) ∧
      (∀ b : Board n, Solvable b → ∃! k, Graph.Polls s k b) ∧
      Iterates (Graph.unfinished pq) (Graph.settle pq r.graph.graph)
        (2 * Nat.card {b : Board n // Solvable b} - 1) (Graph.startSearch pq r.graph.graph) u ∧
      Graph.unfinished pq u = false ∧ r.graph.dijkstra pq = .ok g ∧ Graph.new pq n = .ok g ∧
      g = { r.graph with parents := u.parents, farthestNode := u.farthestNode } := by
  obtain ⟨t, s, r, last, hTaquin, hStart, hs, hIter, hStop, hCreate, hk, hr⟩ := creatGraph_eq hn hn'
  have hc := complete_of_length hk
  have hPolls : ∀ {k : ℕ} {b : Board n}, Graph.Polls s k b ↔ _ := polls_iff hs hk
  obtain ⟨u, hSettle, hFinish⟩ := hr.iterates_settle hc pq
  have hSum := hr.sum_length hc
  have hLoop := hSettle.whileLoop_eq hFinish
    (show _ ≤ 1 + (r.graph.graph.map List.length).sum by omega)
  have hRun : r.graph.dijkstra pq =
      .ok { r.graph with parents := u.parents, farthestNode := u.farthestNode } := by
    rw [Graph.dijkstra, hLoop]
    rfl
  have hNew : Graph.new pq n =
      .ok { r.graph with parents := u.parents, farthestNode := u.farthestNode } := by
    rw [Graph.new, hTaquin, Result.ok_bind, hCreate, Result.ok_bind, hRun]
  rw [hk] at hSettle
  rw [card_solvable hc, hk]
  refine ⟨t, s, r, u, _, hTaquin, hStart, hIter, hStop, hCreate, fun k b hb => ?_, fun k hk' => ?_,
    fun b hb => ?_, hSettle, hFinish, hRun, hNew, rfl⟩
  · rw [hPolls] at hb
    exact ⟨hk ▸ (List.getElem?_eq_some_iff.mp hb).1,
      (mem_seen_iff_solvable hc).mp (List.mem_of_getElem? hb)⟩
  · refine ⟨_, hPolls.mpr (List.getElem?_eq_getElem (hk.symm ▸ hk')), fun b hb => ?_⟩
    exact Option.some.inj ((hPolls.mp hb).symm.trans (List.getElem?_eq_getElem (hk.symm ▸ hk')))
  · obtain ⟨k, hkb⟩ := List.getElem?_of_mem ((mem_seen_iff_solvable hc).mpr hb)
    exact ⟨k, hPolls.mpr hkb, fun j hj => hc.index_unique (hPolls.mp hj) hkb⟩

theorem exact_work_two :
    ∃ t s r u g, Taquin.new (2 : ℕ) = .ok t ∧ Graph.startBuild (Graph.empty (2 : ℕ) t) = .ok s ∧
      Iterates Graph.nonempty Graph.expandNode (Nat.card {b : Board 2 // Solvable b}) s r ∧
      Iterates (Graph.unfinished tripleQueue) (Graph.settle tripleQueue r.graph.graph)
        (2 * Nat.card {b : Board 2 // Solvable b} - 1) (Graph.startSearch tripleQueue r.graph.graph)
        u ∧
      Graph.new tripleQueue (2 : ℕ) = .ok g := by
  obtain ⟨t, s, r, u, g, hTaquin, hStart, hIter, -, -, -, -, -, hSettle, -, -, hNew, -⟩ :=
    exact_work tripleQueue 2 (by decide) (by decide)
  exact ⟨t, s, r, u, g, hTaquin, hStart, hIter, hSettle, hNew⟩

end TaquinSolver
