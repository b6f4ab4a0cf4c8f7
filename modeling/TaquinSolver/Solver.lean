import TaquinSolver.Exploration
import TaquinSolver.ShortestPaths

/-! The constructor of `Graph`.  `creatGraph` leaves the edges of discovery only, which form a tree,
and on a tree `dijkstra` has no choice: whatever the priority queue, it finds the parents by which
the boards were discovered (`new_solved`).  Breadth-first order makes these the parents on shortest
ways in the whole puzzle. -/

namespace TaquinSolver

open Java Sliding Search Search.Bfs

variable {n : ℕ}

/-- Node `v` of `g` keeps the board `b`. -/
def Graph.IsBoard (g : Graph) (v : ℤ) (b : Board n) : Prop :=
  ∃ nd, g.getBitSet v = .ok nd ∧ Shows g.getNbits g.getSizeBS nd.taquinBS b

/-- `getParent` called `k` times, from `v` on. -/
def Graph.ancestor (g : Graph) (k : ℕ) (v : ℤ) : Result Int :=
  (fun r => r >>= g.getParent)^[k] (.ok v)

/-- A finished graph: every board is stored, under the parents of its discovery. -/
structure Solved (hn : 0 < n) (num : Discovery (Board n)) (g : Graph) : Prop
    extends Stores hn num g where
  complete : Complete (next hn) (goal n) num
  parents : g.parents = num.parents.map Nat.cast
  farthest : ∃ f : ℕ, g.farthestNode = f ∧ f < num.seen.length ∧
    ∀ v < num.seen.length, level num.parents v ≤ level num.parents f

/-! ### `dijkstra` on the edges of discovery -/

section Tree

variable {hn : 0 < n} {num : Discovery (Board n)} {g : Graph}

theorem Stores.edge_eq (h : Stores hn num g) : Edge g.graph = TreeEdge num.parents := by
  funext u v
  rw [eq_iff_iff, Edge, TreeEdge, h.graph]
  constructor
  · rintro ⟨l, hl, hv⟩
    have hu : u < num.parents.length := by
      have := (List.getElem?_eq_some_iff.mp hl).1
      simpa [length_tree] using this
    rw [List.getElem?_map, getElem?_tree hu] at hl
    cases hl
    obtain ⟨w, hw, heq⟩ := List.mem_map.mp hv
    obtain rfl : w = v := by exact_mod_cast heq
    exact ⟨hu, hw⟩
  · rintro ⟨hu, hv⟩
    exact ⟨_, by rw [List.getElem?_map, getElem?_tree hu]; rfl, List.mem_map_of_mem hv⟩

theorem Stores.wellFormed (h : Stores hn num g) (hComplete : Complete (next hn) (goal n) num) :
    WellFormed g.graph := by
  intro l hl v hv
  obtain ⟨u, hu⟩ := List.getElem?_of_mem hl
  have huLt := (List.getElem?_eq_some_iff.mp hu).1
  rw [h.graph, List.length_map, length_tree] at huLt
  rw [h.graph, List.getElem?_map, getElem?_tree huLt] at hu
  cases hu
  obtain ⟨w, hw, rfl⟩ := List.mem_map.mp hv
  rw [h.graph, List.length_map, length_tree]
  refine ⟨Int.natCast_nonneg w, ?_⟩
  have hLen := hComplete.length
  have hwLt : w < num.seen.length := by
    rcases mem_neighbours_iff.mp hw with ⟨-, rfl⟩ | ⟨-, hp⟩
    · exact hComplete.parent_below (hLen ▸ huLt)
    · rw [← hLen]
      exact (List.getElem?_eq_some_iff.mp hp).1
  exact_mod_cast hLen ▸ hwLt

/-- `dijkstra` finds the parents of discovery. -/
theorem Stores.dijkstra (h : Stores hn num g) (hComplete : Complete (next hn) (goal n) num)
    (pq : PriorityQueue TripleComparator.compare) :
    ∃ g', g.dijkstra pq = .ok g' ∧ Solved hn num g' := by
  have hLen := h.length_graph hComplete
  obtain ⟨s, hRun, hs, hSettled⟩ :=
    dijkstra_eq pq g (h.graph_ne_nil hComplete) (h.wellFormed hComplete)
  rw [h.edge_eq] at hSettled
  refine ⟨_, hRun, ⟨h.side, h.nbits, h.sizeBS, h.length, h.node, h.lookup, h.graph⟩, hComplete, ?_,
    ?_⟩
  · apply List.ext_getElem?
    intro v
    rcases Nat.lt_or_ge v num.seen.length with hv | hv
    · obtain ⟨p, hp, hCase⟩ :=
        hs.settled v ((hSettled v).mpr ⟨_, (hComplete.tree_isDist hv).1⟩)
      have hParent : p = parent num.parents v := by
        rcases hCase with ⟨rfl, rfl⟩ | ⟨-, hPrec⟩
        · exact hComplete.parent_start.symm
        · rw [h.edge_eq] at hPrec
          exact hComplete.eq_parent hPrec
      rw [hp, List.getElem?_map, hComplete.getElem?_parents hv, hParent]
      rfl
    · rw [List.getElem?_eq_none (by rw [hs.parents, hLen]; exact hv),
        List.getElem?_eq_none (by rw [List.length_map, hComplete.length]; exact hv)]
  · obtain ⟨f, d, hf, -, hDist, hMax⟩ := hs.farthest
    rw [h.edge_eq] at hDist hMax
    have hfLt := hComplete.lt_of_tree_steps hDist.1
    refine ⟨f, hf, hfLt, fun v hv => ?_⟩
    rw [← hDist.unique (hComplete.tree_isDist hfLt)]
    have hDistV := hComplete.tree_isDist hv
    exact hMax v ((hSettled v).mpr ⟨_, hDistV.1⟩) _ hDistV

end Tree

/-- The constructor returns a finished graph, with one numbering for all priority queues. -/
theorem new_solved (hn : 0 < n) (hn' : n ≤ 256) :
    ∃ t s k, Taquin.new n = .ok t ∧ Graph.startBuild (Graph.empty n t) = .ok s ∧
      Building hn (numbering (next hn) (goal n) 0) 0 s ∧
      (numbering (next hn) (goal n) k).seen.length = k ∧
      ∀ pq, ∃ g, Graph.new pq n = .ok g ∧ Solved hn (numbering (next hn) (goal n) k) g := by
  obtain ⟨t, s, u, k, hNew, hStart, hs, -, -, hCreate, hk, hg⟩ := creatGraph_eq hn hn'
  refine ⟨t, s, k, hNew, hStart, hs, hk, fun pq => ?_⟩
  obtain ⟨g', hRun, hg'⟩ := hg.dijkstra (complete_of_length hk) pq
  refine ⟨g', ?_, hg'⟩
  rw [Graph.new, hNew, Result.ok_bind, hCreate, Result.ok_bind, hRun]

/-- Whatever the constructor returns is a finished graph. -/
theorem solved_of_new (hn : 0 < n) (hn' : n ≤ 256) {pq : PriorityQueue TripleComparator.compare}
    {g : Graph} (hNew : Graph.new pq n = .ok g) :
    ∃ k, (numbering (next hn) (goal n) k).seen.length = k ∧
      Solved hn (numbering (next hn) (goal n) k) g := by
  obtain ⟨t, s, k, -, -, -, hk, hSolved⟩ := new_solved hn hn'
  obtain ⟨g', hNew', hg⟩ := hSolved pq
  obtain rfl : g = g' := Except.ok.inj (hNew.symm.trans hNew')
  exact ⟨k, hk, hg⟩

/-! ### Boards, distances and parents -/

section Solved

variable {hn : 0 < n} {num : Discovery (Board n)} {g : Graph}

theorem Stores.isBoard_iff (h : Stores hn num g) {v : ℕ} {b : Board n} :
    g.IsBoard v b ↔ num.seen[v]? = some b := by
  rw [Graph.IsBoard, Graph.getNbits, Graph.getSizeBS, h.nbits, h.sizeBS]
  constructor
  · rintro ⟨nd, hnd, hShows⟩
    obtain ⟨b', hb', hRep⟩ := h.exists_board (listGet_natCast.mp hnd)
    rw [hb', hShows.unique hRep.board]
  · intro hb
    obtain ⟨nd, hnd, hRep⟩ := h.node v b hb
    exact ⟨nd, listGet_natCast.mpr hnd, hRep.board⟩

/-- The level of a board is its distance from the goal in the full puzzle. -/
theorem isDist_level {num : Discovery (Board n)} (hComplete : Complete (next hn) (goal n) num)
    {v : ℕ} {b : Board n} (hb : num.seen[v]? = some b) :
    IsDist Move (goal n) b (level num.parents v) := by
  rw [← next_eq hn]
  exact hComplete.isDist hb

/-- A board that moves lead to the goal is numbered, on the level of its distance. -/
theorem exists_level (hComplete : Complete (next hn) (goal n) num) {b : Board n} {d : ℕ}
    (hd : IsDist Move b (goal n) d) : ∃ v : ℕ, num.seen[v]? = some b ∧ level num.parents v = d := by
  have hd' := hd.symm fun _ _ h => h.symm
  obtain ⟨v, hv⟩ :=
    List.getElem?_of_mem ((mem_seen_iff_solvable hComplete).mpr (reachable_iff.mpr ⟨d, hd'.1⟩))
  exact ⟨v, hv, (isDist_level hComplete hv).unique hd'⟩

namespace Solved

theorem getParent_eq (h : Solved hn num g) {v : ℕ} (hv : v < num.seen.length) :
    g.getParent v = .ok (parent num.parents v : ℕ) := by
  rw [Graph.getParent, listGet_natCast, h.parents, List.getElem?_map,
    h.complete.getElem?_parents hv]
  rfl

theorem ancestor_eq (h : Solved hn num g) {v : ℕ} (hv : v < num.seen.length) (k : ℕ) :
    g.ancestor k v = .ok ((parent num.parents)^[k] v : ℕ) := by
  induction k with
  | zero => rfl
  | succ k ih =>
    rw [Graph.ancestor] at ih
    rw [Graph.ancestor, Function.iterate_succ_apply', ih, Result.ok_bind,
      h.getParent_eq (h.complete.level_iterate hv k).1, Function.iterate_succ_apply']

/-- The parent of a board other than the goal is one move away, with its blank where the node of the
parent says. -/
theorem move_parent (h : Solved hn num g) {v : ℕ} {b : Board n} (hv : v ≠ 0)
    (hb : num.seen[v]? = some b) :
    ∃ c', Adjacent (blank hn b) c' ∧
      num.seen[parent num.parents v]? = some (slide b (blank hn b) c') ∧
      ∃ nd, g.getBitSet (parent num.parents v : ℕ) = .ok nd ∧ nd.iPuzzle = (c'.1 : ℕ) ∧
        nd.jPuzzle = (c'.2 : ℕ) := by
  have hvLt := (List.getElem?_eq_some_iff.mp hb).1
  obtain ⟨b', hb', hMove⟩ := h.complete.parent_next v _ b (Nat.pos_of_ne_zero hv)
    (h.complete.getElem?_parents hvLt) hb
  obtain ⟨c, c', hc, hAdj, rfl⟩ := (mem_next.mp hMove).symm
  obtain ⟨nd, hnd, hRep⟩ := h.node _ _ hb'
  obtain rfl : blank hn b = c := blank_eq hc
  refine ⟨c', hAdj, hb', nd, listGet_natCast.mpr hnd, ?_, ?_⟩
  · rw [hRep.row, blank_slide]
  · rw [hRep.column, blank_slide]

end Solved

end Solved

/-! ### Shortest solutions -/

/-- Following `getParent` solves every board in the least number of legal moves. -/
theorem getParent_optimal (pq : PriorityQueue TripleComparator.compare) (n : ℕ) (hn : 2 ≤ n)
    (hn' : n ≤ 256) :
    ∃ g, Graph.new pq n = .ok g ∧ g.IsBoard 0 (goal n) ∧ g.getParent 0 = .ok 0 ∧
      ∀ v : ℕ, v < g.reverseIds.length → ∃ (b : Board n) (d : ℕ),
        g.IsBoard v b ∧ IsDist Move b (goal n) d ∧ g.ancestor d v = .ok 0 ∧
        ∀ k < d, ∃ (u w : ℕ) (bu bw : Board n) (c c' : Cell n) (nd : Node),
          g.ancestor k v = .ok u ∧ u ≠ 0 ∧ g.ancestor (k + 1) v = .ok w ∧
          g.IsBoard u bu ∧ g.IsBoard w bw ∧
          IsBlank bu c ∧ Adjacent c c' ∧ bw = slide bu c c' ∧
          g.getBitSet w = .ok nd ∧ nd.iPuzzle = (c'.1 : ℕ) ∧ nd.jPuzzle = (c'.2 : ℕ) := by
  have hPos : 0 < n := by omega
  obtain ⟨t, s, last, -, -, -, -, hSolved⟩ := new_solved hPos hn'
  obtain ⟨g, hNew, hg⟩ := hSolved pq
  have hc := hg.complete
  have hLen : 0 < (numbering (next hPos) (goal n) last).seen.length :=
    (List.getElem?_eq_some_iff.mp hc.seen_zero).1
  refine ⟨g, hNew, ?_, ?_, fun v hv => ?_⟩
  · exact hg.isBoard_iff.mpr hc.seen_zero
  · rw [show (0 : ℤ) = ((0 : ℕ) : ℤ) from rfl, hg.getParent_eq hLen, hc.parent_start]
  rw [hg.length] at hv
  have hb := List.getElem?_eq_getElem hv
  refine ⟨_, _, hg.isBoard_iff.mpr hb, (isDist_level hc hb).symm fun _ _ h => h.symm, ?_, ?_⟩
  · rw [hg.ancestor_eq hv, (hc.iterate_eq_zero_iff hv).mpr (le_refl _)]
    rfl
  · intro k hk
    have hu := (hc.level_iterate hv k).1
    have hne : (parent _)^[k] v ≠ 0 := fun h0 =>
      absurd ((hc.iterate_eq_zero_iff hv).mp h0) (by omega)
    obtain ⟨c', hAdj, hw, nd, hnd, hi, hj⟩ :=
      hg.move_parent hne (List.getElem?_eq_getElem hu)
    rw [← Function.iterate_succ_apply' (parent _)] at hw hnd
    exact ⟨_, _, _, _, _, c', nd, hg.ancestor_eq hv k, hne, hg.ancestor_eq hv (k + 1),
      hg.isBoard_iff.mpr (List.getElem?_eq_getElem hu), hg.isBoard_iff.mpr hw,
      isBlank_blank hPos _, hAdj, rfl, hnd, hi, hj⟩

theorem getParent_optimal_two :
    ∃ g, Graph.new tripleQueue (2 : ℕ) = .ok g ∧ g.IsBoard 0 (goal 2) ∧ g.getParent 0 = .ok 0 ∧
      ∀ v : ℕ, v < g.reverseIds.length → ∃ (b : Board 2) (d : ℕ),
        g.IsBoard v b ∧ IsDist Move b (goal 2) d ∧ g.ancestor d v = .ok 0 := by
  obtain ⟨g, hNew, hGoal, hRoot, hAll⟩ := getParent_optimal tripleQueue 2 (by decide) (by decide)
  refine ⟨g, hNew, hGoal, hRoot, fun v hv => ?_⟩
  obtain ⟨b, d, hb, hd, hAncestor, -⟩ := hAll v hv
  exact ⟨b, d, hb, hd, hAncestor⟩

/-! ### Known boards -/

/-- A packed board is known if and only if it shows a permutation with the parity of the way of its
blank. -/
theorem mem_ids_iff_parity (pq : PriorityQueue TripleComparator.compare) (n : ℕ) (hn : 2 ≤ n)
    (hn' : n ≤ 256) :
    ∃ g, Graph.new pq n = .ok g ∧
      ∀ bs : BitSet, (∀ q : ℕ, g.getSizeBS ≤ q → bs.get q = .ok false) →
        ((∃ id, g.getId bs = .ok id) ↔ bs ∈ g.ids) ∧
        (bs ∈ g.ids ↔ ∃ b : Board n,
          (∀ i j : Fin n, Utils.getValueBSAt (i : ℕ) (j : ℕ) n g.getNbits g.getSizeBS bs =
            .ok ((b (i, j) : ℕ) : ℤ)) ∧
          ∀ c, IsBlank b c → Equiv.Perm.sign (relative b) = (-1) ^ cornerDist c) := by
  have hPos : 0 < n := by omega
  obtain ⟨t, s, last, -, -, -, -, hSolved⟩ := new_solved hPos hn'
  obtain ⟨g, hNew, hg⟩ := hSolved pq
  refine ⟨g, hNew, fun bs hbs => ⟨?_, ?_⟩⟩
  · rw [← AList.lookup_isSome, Option.isSome_iff_exists]
    simp only [getId_eq_ok]
  · rw [hg.mem_ids_iff_solvable hg.complete]
    constructor
    · rintro ⟨b, hb, hShows⟩
      exact ⟨b, hShows.2, fun c hc => (solvable_iff hn hc).mp hb⟩
    · rintro ⟨b, hCells, hParity⟩
      have hBlank := isBlank_blank hPos b
      exact ⟨b, (solvable_iff hn hBlank).mpr (hParity _ hBlank), hbs, hCells⟩

/-- The packed goal of size 2. -/
theorem mem_ids_iff_parity_two :
    ∃ g, Graph.new tripleQueue (2 : ℕ) = .ok g ∧
      ((∃ id, g.getId ⟨108⟩ = .ok id) ↔ ⟨108⟩ ∈ g.ids) ∧
      (⟨108⟩ ∈ g.ids ↔ ∃ b : Board 2,
        (∀ i j : Fin 2, Utils.getValueBSAt (i : ℕ) (j : ℕ) (2 : ℕ) g.getNbits g.getSizeBS ⟨108⟩ =
          .ok ((b (i, j) : ℕ) : ℤ)) ∧
        ∀ c, IsBlank b c → Equiv.Perm.sign (relative b) = (-1) ^ cornerDist c) := by
  obtain ⟨g, hNew, hAll⟩ := mem_ids_iff_parity tripleQueue 2 (by decide) (by decide)
  obtain ⟨k, -, hg⟩ := solved_of_new (by decide) (by decide) hNew
  have hSize : g.getSizeBS = 8 := hg.sizeBS
  exact ⟨g, hNew, hAll ⟨108⟩ (hSize ▸ shows_goal_two.1)⟩

/-! ### The order of discovery -/

/-- The parents are the same for all priority queues: the parent of a board is the one that
discovered it, and the least of the boards one move away. -/
theorem parents_canonical (n : ℕ) (hn : 2 ≤ n) (hn' : n ≤ 256) :
    ∃ t s parents, Taquin.new n = .ok t ∧ Graph.startBuild (Graph.empty n t) = .ok s ∧
      ∀ pq : PriorityQueue TripleComparator.compare, ∃ g, Graph.new pq n = .ok g ∧
        g.parents = parents ∧
        ∀ v : ℕ, v ≠ 0 → v < g.reverseIds.length → ∃ p : ℕ, g.getParent v = .ok p ∧
          (∃ r r', Iterates Graph.nonempty Graph.expandNode p s r ∧ Graph.nonempty r = true ∧
            Graph.expandNode r = .ok r' ∧ (r.queue.head?.map Triple.first) = some (p : ℤ) ∧
            r.graph.reverseIds.length ≤ v ∧ v < r'.graph.reverseIds.length) ∧
          ∃ b : Board n, g.IsBoard v b ∧
            IsLeast {u : ℕ | ∃ b' : Board n, g.IsBoard u b' ∧ Move b b'} p := by
  have hPos : 0 < n := by omega
  obtain ⟨t, s, last, hTaquin, hStart, hs, hk, hSolved⟩ := new_solved hPos hn'
  have hc := complete_of_length hk
  refine ⟨t, s, (numbering (next hPos) (goal n) last).parents.map Nat.cast, hTaquin, hStart,
    fun pq => ?_⟩
  obtain ⟨g, hNew, hg⟩ := hSolved pq
  refine ⟨g, hNew, hg.parents, fun v h0 hv => ?_⟩
  have hvPos := Nat.pos_of_ne_zero h0
  rw [hg.length] at hv
  have hPar := hc.getElem?_parents hv
  have hb := List.getElem?_eq_getElem hv
  refine ⟨_, hg.getParent_eq hv, ?discovery, _, hg.isBoard_iff.mpr hb, ?neighbour, ?least⟩
  case discovery =>
    have hpLt := hc.parent_below hv
    rw [hk] at hpLt
    have hLt := lt_length_numbering hk hpLt
    obtain ⟨r, hIter, hr⟩ := exists_iterates_building hs fun j hj =>
      lt_length_numbering hk (hj.trans hpLt)
    obtain ⟨r', hStep, hr'⟩ := expandNode_eq hr (explored_numbering _ _ _) hLt
    obtain ⟨hOld, hNow⟩ := stage_of_parent hk hvPos hPar
    refine ⟨r, r', hIter, (nonempty_iff hr).mpr hLt, hStep, ?_, hr.stores.length ▸ hOld,
      hr'.stores.length ▸ hNow⟩
    obtain ⟨nd, -, hQueue⟩ := hr.queue_cons (List.getElem?_eq_getElem hLt)
    rw [hQueue]
    rfl
  case neighbour =>
    obtain ⟨b', hb', hMove⟩ := hc.parent_next v _ _ hvPos hPar hb
    exact ⟨b', hg.isBoard_iff.mpr hb', (mem_next.mp hMove).symm⟩
  case least =>
    rintro u ⟨b', hb', hMove⟩
    exact hc.parent_least v _ u b' _ hvPos hPar hb (hg.isBoard_iff.mp hb')
      (mem_next.mpr hMove.symm)

theorem parents_canonical_two :
    ∃ g, Graph.new tripleQueue (2 : ℕ) = .ok g ∧
      ∀ v : ℕ, v ≠ 0 → v < g.reverseIds.length → ∃ (p : ℕ) (b : Board 2), g.getParent v = .ok p ∧
        g.IsBoard v b ∧ IsLeast {u : ℕ | ∃ b' : Board 2, g.IsBoard u b' ∧ Move b b'} p := by
  obtain ⟨t, s, parents, -, -, hAll⟩ := parents_canonical 2 (by decide) (by decide)
  obtain ⟨g, hNew, -, hParents⟩ := hAll tripleQueue
  refine ⟨g, hNew, fun v h0 hv => ?_⟩
  obtain ⟨p, hp, -, b, hb, hLeast⟩ := hParents v h0 hv
  exact ⟨p, b, hp, hb, hLeast⟩

/-- Numbers follow distances, and the queue holds the boards from the next one on, on two levels. -/
theorem ids_follow_distance (pq : PriorityQueue TripleComparator.compare) (n : ℕ) (hn : 1 ≤ n)
    (hn' : n ≤ 256) :
    ∃ t s g, Taquin.new n = .ok t ∧ Graph.startBuild (Graph.empty n t) = .ok s ∧
      Graph.new pq n = .ok g ∧
      (∀ a b : ℕ, a ≤ b → b < g.reverseIds.length → ∃ (ba bb : Board n) (da db : ℕ),
        g.IsBoard a ba ∧ g.IsBoard b bb ∧ IsDist Move (goal n) ba da ∧
        IsDist Move (goal n) bb db ∧ da ≤ db) ∧
      ∀ k r, Iterates Graph.nonempty Graph.expandNode k s r → Graph.nonempty r = true →
        k < r.graph.reverseIds.length ∧
        r.queue.map Triple.first =
          (List.range' k (r.graph.reverseIds.length - k)).map Nat.cast ∧
        ∃ d, ∀ v : ℕ, k ≤ v → v < r.graph.reverseIds.length → ∃ (b : Board n) (dv : ℕ),
          r.graph.IsBoard v b ∧ IsDist Move (goal n) b dv ∧ d ≤ dv ∧ dv ≤ d + 1 := by
  obtain ⟨t, s, last, hTaquin, hStart, hs, hk, hSolved⟩ := new_solved hn hn'
  have hc := complete_of_length hk
  obtain ⟨g, hNew, hg⟩ := hSolved pq
  refine ⟨t, s, g, hTaquin, hStart, hNew, fun a b hab hb => ?_, fun k r hIter hCond => ?_⟩
  · rw [hg.length] at hb
    have ha := List.getElem?_eq_getElem (hab.trans_lt hb)
    have hb' := List.getElem?_eq_getElem hb
    exact ⟨_, _, _, _, hg.isBoard_iff.mpr ha, hg.isBoard_iff.mpr hb', isDist_level hc ha,
      isDist_level hc hb', hc.level_mono hab hb⟩
  · have hr := building_of_iterates hIter hs
    rw [Nat.zero_add] at hr
    have hkLt := (nonempty_iff hr).mp hCond
    have hPrefix := (numbering_isPrefix_last hk k).1
    have hkLast : k < last := by
      have := hPrefix.length_le
      omega
    rw [hr.stores.length]
    refine ⟨hkLt, by rw [hr.queue, pending_ids, hr.stores.length],
      level (numbering (next hn) (goal n) last).parents k, fun v hkv hv => ?_⟩
    have hb := List.getElem?_eq_getElem hv
    exact ⟨_, _, hr.stores.isBoard_iff.mpr hb, isDist_level hc (getElem?_of_isPrefix hPrefix hb),
      level_waiting hk hkLast hkv hv⟩

theorem ids_follow_distance_two :
    ∃ g, Graph.new tripleQueue (2 : ℕ) = .ok g ∧
      ∀ a b : ℕ, a ≤ b → b < g.reverseIds.length → ∃ (ba bb : Board 2) (da db : ℕ),
        g.IsBoard a ba ∧ g.IsBoard b bb ∧ IsDist Move (goal 2) ba da ∧
        IsDist Move (goal 2) bb db ∧ da ≤ db := by
  obtain ⟨t, s, g, -, -, hNew, hOrder, -⟩ :=
    ids_follow_distance tripleQueue 2 (by decide) (by decide)
  exact ⟨g, hNew, hOrder⟩

end TaquinSolver
