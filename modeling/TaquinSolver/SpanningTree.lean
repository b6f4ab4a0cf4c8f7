import TaquinSolver.Search.Spanning
import TaquinSolver.Solver

/-! The graph that `creatGraph` records is a tree of legal moves.  Its lists are the edges of
discovery, which join each board but the goal to the one that discovered it, so the discoverer is
the only neighbour with a smaller number (`creatGraph_tree`). -/

namespace TaquinSolver

open Java Sliding Search Search.Bfs

variable {n : ℕ}

/-- Adjacency lists as a graph without directions, on the numbers of the lists. -/
def adjacency (graph : List (List Int)) : SimpleGraph (Fin graph.length) :=
  .fromRel fun u v => Edge graph u v

namespace Stores

variable {hn : 0 < n} {num : Discovery (Board n)} {g : Graph}

theorem getElem?_graph (h : Stores hn num g) {v : ℕ} {l : List Int} (hl : g.graph[v]? = some l) :
    v < num.parents.length ∧ l = (neighbours num.parents v).map Nat.cast := by
  have hv : v < num.parents.length := by
    have := (List.getElem?_eq_some_iff.mp hl).1
    rwa [h.graph, List.length_map, length_tree] at this
  rw [h.graph, List.getElem?_map, getElem?_tree hv] at hl
  exact ⟨hv, (Option.some.inj hl).symm⟩

/-- How often a number is in a list. -/
theorem count_graph (h : Stores hn num g) (hComplete : Complete (next hn) (goal n) num) {u v : ℕ}
    {l : List Int} (hl : g.graph[u]? = some l) :
    l.count (v : ℤ) ≤ 1 ∧ (0 < l.count (v : ℤ) ↔ TreeEdge num.parents u v) := by
  obtain ⟨hu, rfl⟩ := h.getElem?_graph hl
  have hCount : ((neighbours num.parents u).map Nat.cast).count (v : ℤ) =
      (neighbours num.parents u).count v := by
    rw [List.count_map_of_injective _ _ Nat.cast_injective]
  rw [hCount, List.count_pos_iff, TreeEdge, and_iff_right hu]
  exact ⟨List.nodup_iff_count_le_one.mp (hComplete.nodup_neighbours u) v, Iff.rfl⟩

theorem count_symm (h : Stores hn num g) (hComplete : Complete (next hn) (goal n) num) {u v : ℕ}
    {l l' : List Int} (hl : g.graph[u]? = some l) (hl' : g.graph[v]? = some l') :
    l'.count (u : ℤ) = l.count (v : ℤ) ∧ l.count (v : ℤ) ≤ 1 := by
  obtain ⟨hLe, hPos⟩ := h.count_graph hComplete (v := v) hl
  obtain ⟨hLe', hPos'⟩ := h.count_graph hComplete (v := u) hl'
  have hSymm : TreeEdge num.parents u v ↔ TreeEdge num.parents v u :=
    ⟨hComplete.treeEdge_symm, hComplete.treeEdge_symm⟩
  rw [← hPos, ← hPos'] at hSymm
  omega

/-- An edge joins boards that are one legal move apart. -/
theorem move_of_edge (h : Stores hn num g) (hComplete : Complete (next hn) (goal n) num) {u v : ℕ}
    (hEdge : Edge g.graph u v) :
    u ≠ v ∧ ∃ b b' : Board n, g.IsBoard u b ∧ g.IsBoard v b' ∧ Move b b' := by
  have hParent : ∀ v : ℕ, v ≠ 0 → v < num.seen.length →
      parent num.parents v ≠ v ∧ ∃ b b' : Board n, g.IsBoard v b ∧
        g.IsBoard (parent num.parents v : ℕ) b' ∧ Move b b' := by
    intro v h0 hv
    have hb := List.getElem?_eq_getElem hv
    obtain ⟨b', hb', hMove⟩ :=
      hComplete.parent_next v _ _ (Nat.pos_of_ne_zero h0) (hComplete.getElem?_parents hv) hb
    exact ⟨(hComplete.parent_lt_self hv h0).ne, _, b', h.isBoard_iff.mpr hb, h.isBoard_iff.mpr hb',
      (mem_next.mp hMove).symm⟩
  rw [h.edge_eq] at hEdge
  have hu : u < num.seen.length := hComplete.length ▸ hEdge.1
  rcases (hComplete.treeEdge_iff hu).mp hEdge with ⟨h0, rfl⟩ | ⟨h0, hv, rfl⟩
  · obtain ⟨hne, hBoards⟩ := hParent u h0 hu
    exact ⟨hne.symm, hBoards⟩
  · obtain ⟨hne, b, b', hb, hb', hMove⟩ := hParent v h0 hv
    exact ⟨hne, b', b, hb', hb, hMove.symm⟩

theorem adjacency_adj (h : Stores hn num g) (hComplete : Complete (next hn) (goal n) num)
    (u v : Fin g.graph.length) : (adjacency g.graph).Adj u v ↔ Edge g.graph u v := by
  rw [adjacency, SimpleGraph.fromRel_adj]
  constructor
  · rintro ⟨-, hEdge | hEdge⟩
    · exact hEdge
    · rw [h.edge_eq] at hEdge ⊢
      exact hComplete.treeEdge_symm hEdge
  · intro hEdge
    exact ⟨fun hEq => (h.move_of_edge hComplete hEdge).1 (congrArg Fin.val hEq), .inl hEdge⟩

theorem isTree (h : Stores hn num g) (hComplete : Complete (next hn) (goal n) num) :
    (adjacency g.graph).IsTree ∧ Nat.card (adjacency g.graph).edgeSet + 1 = g.graph.length := by
  have hLen := h.length_graph hComplete
  have hPos : 0 < g.graph.length := List.length_pos_iff.mpr (h.graph_ne_nil hComplete)
  have hBelow : ∀ v : Fin g.graph.length, parent num.parents v < g.graph.length := fun v =>
    (hComplete.parent_below (v.isLt.trans_eq hLen)).trans_eq hLen.symm
  have hDown : ∀ v u : Fin g.graph.length, (u < v ∧ (adjacency g.graph).Adj v u) ↔
      v ≠ ⟨0, hPos⟩ ∧ u = ⟨parent num.parents v, hBelow v⟩ := by
    intro v u
    rw [h.adjacency_adj hComplete, h.edge_eq, Fin.lt_def, Ne, Fin.ext_iff, Fin.ext_iff]
    exact hComplete.treeEdge_smaller (hLen ▸ v.isLt)
  have hTree := isTree_of_down hDown
  rwa [Nat.card_fin] at hTree

end Stores

/-- `creatGraph` records a spanning tree of legal moves, on all boards that moves reach. -/
theorem creatGraph_tree (n : ℕ) (hn : 1 ≤ n) (hn' : n ≤ 256) :
    ∃ t g, Taquin.new n = .ok t ∧ (Graph.empty n t).creatGraph = .ok g ∧
      g.graph.length = g.reverseIds.length ∧
      (∀ l ∈ g.graph, ∀ v ∈ l, 0 ≤ v ∧ v < g.graph.length) ∧
      (∀ (a b : ℕ) (la lb : List Int), g.graph[a]? = some la → g.graph[b]? = some lb →
        lb.count (a : ℤ) = la.count (b : ℤ) ∧ la.count (b : ℤ) ≤ 1) ∧
      (∀ u v : ℕ, Edge g.graph u v → u ≠ v ∧
        ∃ b b' : Board n, g.IsBoard u b ∧ g.IsBoard v b' ∧ Move b b') ∧
      (∀ v : ℕ, v ≠ 0 → v < g.graph.length → ∃! u, u < v ∧ Edge g.graph v u) ∧
      (∀ u v, (adjacency g.graph).Adj u v ↔ Edge g.graph u v) ∧
      (adjacency g.graph).Connected ∧ (adjacency g.graph).IsAcyclic ∧
      Nat.card (adjacency g.graph).edgeSet = g.graph.length - 1 ∧
      (∀ b : Board n, Solvable b → ∃ v < g.graph.length, g.IsBoard v b) := by
  obtain ⟨t, s, u, k, hNew, -, -, -, -, hCreate, hk, hg⟩ := creatGraph_eq hn hn'
  generalize u.graph = g at hCreate hg
  have hc := complete_of_length hk
  obtain ⟨hTree, hCard⟩ := hg.isTree hc
  refine ⟨t, g, hNew, hCreate, (hg.length_graph hc).trans hg.length.symm, hg.wellFormed hc,
    fun a b la lb hla hlb => hg.count_symm hc hla hlb, fun u v => hg.move_of_edge hc,
    fun v h0 hv => ?_, hg.adjacency_adj hc, hTree.connected, hTree.isAcyclic, by omega,
    fun b hb => ?_⟩
  · rw [hg.length_graph hc] at hv
    rw [hg.edge_eq]
    refine ⟨parent _ v, (hc.treeEdge_smaller hv).mpr ⟨h0, rfl⟩, fun u hu => ?_⟩
    exact ((hc.treeEdge_smaller hv).mp hu).2
  · obtain ⟨v, hv⟩ := List.getElem?_of_mem ((mem_seen_iff_solvable hc).mpr hb)
    refine ⟨v, ?_, hg.isBoard_iff.mpr hv⟩
    rw [hg.length_graph hc]
    exact (List.getElem?_eq_some_iff.mp hv).1

theorem creatGraph_tree_two :
    ∃ t g, Taquin.new (2 : ℕ) = .ok t ∧ (Graph.empty (2 : ℕ) t).creatGraph = .ok g ∧
      (adjacency g.graph).Connected ∧ (adjacency g.graph).IsAcyclic ∧
      Nat.card (adjacency g.graph).edgeSet = g.graph.length - 1 := by
  obtain ⟨t, g, hNew, hCreate, -, -, -, -, -, -, hConnected, hAcyclic, hCard, -⟩ :=
    creatGraph_tree 2 (by decide) (by decide)
  exact ⟨t, g, hNew, hCreate, hConnected, hAcyclic, hCard⟩

end TaquinSolver
