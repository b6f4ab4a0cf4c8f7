import TaquinSolver.ShortestPaths

/-! The order in which `dijkstra` settles the nodes.  The second test of `TripleComparator.compare`
repeats the first one, so `second` is never compared, and triples of one cost and one parent are
polled in any order.  Nodes are settled in the order of their distances (`dist_le_of_settles`), but
`descendingQueue` settles the nodes that have one parent from the largest to the smallest.  The
order within a distance is that of the node numbers, for every queue, exactly when no two nodes have
one distance (`settling_order_iff`). -/

namespace TaquinSolver

open Java Search

/-- Iteration `k` of `dijkstra` settles node `v`. -/
def Settles (pq : PriorityQueue TripleComparator.compare) (graph : List (List Int)) (k v : ℕ) :
    Prop :=
  ∃ s s', Iterates (Graph.unfinished pq) (Graph.settle pq graph) k (Graph.startSearch pq graph) s ∧
    Graph.unfinished pq s = true ∧ Graph.settle pq graph s = .ok s' ∧
    s.marks[v]? = some true ∧ s'.marks[v]? = some false

section Order

variable {pq : PriorityQueue TripleComparator.compare} {graph : List (List Int)}

theorem unfinished_of_settle {s s' : Graph.Search pq.Heap} (h : Graph.settle pq graph s = .ok s') :
    Graph.unfinished pq s = true := by
  cases hPoll : pq.poll s.pq with
  | none => simp [Graph.settle, hPoll] at h
  | some t => simp [Graph.unfinished, PriorityQueue.isEmpty, hPoll]

theorem settling_of_iterates (hWell : WellFormed graph) {k : ℕ} {s t : Graph.Search pq.Heap}
    (hIter : Iterates (Graph.unfinished pq) (Graph.settle pq graph) k s t)
    (hs : Settling pq graph s) : Settling pq graph t :=
  hIter.invariant (fun _ _ hs hCond hStep => (hs.settle hWell hCond hStep).1) hs

/-- Each iteration sets the mark of the node whose triple it polls. -/
theorem Settling.marks_settle {s s' : Graph.Search pq.Heap} (h : Settling pq graph s)
    (hCond : Graph.unfinished pq s = true) (hStep : Graph.settle pq graph s = .ok s') :
    ∃ c v u : ℕ, ∃ heap, pq.poll s.pq = some (⟨c, v, u⟩, heap) ∧
      settledNodes s'.marks = insert v (settledNodes s.marks) := by
  obtain ⟨c, v, u, heap, hPoll, hv⟩ := h.exists_poll hCond
  refine ⟨c, v, u, heap, hPoll, ?_⟩
  rcases h.mark hv with hMark | hMark
  · rw [settle_of_unsettled h hPoll (List.getElem?_eq_getElem hv) hMark] at hStep
    cases hStep
    exact settledNodes_set (h.marks ▸ hv)
  · rw [(settle_stale h hPoll hMark).1] at hStep
    cases hStep
    have hSettled : v ∈ settledNodes s.marks := hMark
    exact (Set.insert_eq_of_mem hSettled).symm

theorem settledNodes_subset (hWell : WellFormed graph) {k : ℕ} {s t : Graph.Search pq.Heap}
    (hIter : Iterates (Graph.unfinished pq) (Graph.settle pq graph) k s t)
    (hs : Settling pq graph s) : settledNodes s.marks ⊆ settledNodes t.marks := by
  refine (hIter.invariant
    (P := fun t => Settling pq graph t ∧ settledNodes s.marks ⊆ settledNodes t.marks)
    (fun t t' ht hCond hStep => ?_) ⟨hs, subset_rfl⟩).2
  obtain ⟨c, v, u, heap, -, hMarks⟩ := ht.1.marks_settle hCond hStep
  refine ⟨(ht.1.settle hWell hCond hStep).1, ht.2.trans ?_⟩
  rw [hMarks]
  exact Set.subset_insert _ _

/-- The nodes that some iteration settles are those that can be reached. -/
theorem exists_settles_iff (pq : PriorityQueue TripleComparator.compare) (hne : graph ≠ [])
    (hWell : WellFormed graph) {v : ℕ} :
    Relation.ReflTransGen (Edge graph) 0 v ↔ ∃ k, Settles pq graph k v := by
  have hStart : Settling pq graph (Graph.startSearch pq graph) := startSearch_settling hne
  constructor
  · intro hReach
    obtain ⟨k, s, hIter, -, -, -, hSettled⟩ := exists_settled pq hne hWell
    obtain ⟨j, t, t', hIter', hCond, hStep, ht, ht'⟩ :=
      hIter.exists_change (Q := fun s => s.marks[v]? = some false)
        (fun hMark => by
          have := List.mem_of_getElem? hMark
          simp [Graph.startSearch] at this)
        ((hSettled v).mpr (reachable_iff.mp hReach))
    have hs := settling_of_iterates hWell hIter' hStart
    have hs' := (hs.settle hWell hCond hStep).1
    have hv : v < graph.length := hs'.marks ▸ (List.getElem?_eq_some_iff.mp ht').1
    exact ⟨j, t, t', hIter', hCond, hStep, (hs.mark hv).resolve_right ht, ht'⟩
  · rintro ⟨k, s, s', hIter, hCond, hStep, -, hMark⟩
    have hs := settling_of_iterates hWell hIter hStart
    obtain ⟨d, hd⟩ := (hs.settle hWell hCond hStep).1.frontier.dist v hMark
    exact reachable_iff.mpr ⟨d, hd.1⟩

/-- The iteration that settles `v` polls a triple of `v`. -/
theorem Settles.exists_poll (hne : graph ≠ []) (hWell : WellFormed graph) {k v : ℕ}
    (h : Settles pq graph k v) :
    ∃ s s',
      Iterates (Graph.unfinished pq) (Graph.settle pq graph) k (Graph.startSearch pq graph) s ∧
      Settling pq graph s ∧ Graph.settle pq graph s = .ok s' ∧ Settling pq graph s' ∧
      v ∉ settledNodes s.marks ∧ settledNodes s'.marks = insert v (settledNodes s.marks) ∧
      ∃ c u : ℕ, ∃ heap, pq.poll s.pq = some (⟨c, v, u⟩, heap) := by
  obtain ⟨s, s', hIter, hCond, hStep, hMark, hMark'⟩ := h
  have hs := settling_of_iterates hWell hIter (startSearch_settling hne)
  obtain ⟨c, x, u, heap, hPoll, hMarks⟩ := hs.marks_settle hCond hStep
  have hBefore : v ∉ settledNodes s.marks := by simp [settledNodes, hMark]
  have hAfter : v ∈ settledNodes s'.marks := hMark'
  rw [hMarks] at hAfter
  obtain rfl : v = x := hAfter.resolve_right hBefore
  exact ⟨s, s', hIter, hs, hStep, (hs.settle hWell hCond hStep).1, hBefore, hMarks, c, u, heap,
    hPoll⟩

/-- An iteration settles at most one node. -/
theorem Settles.unique (hne : graph ≠ []) (hWell : WellFormed graph) {k v w : ℕ}
    (hv : Settles pq graph k v) (hw : Settles pq graph k w) : v = w := by
  obtain ⟨s, -, hIter, -, -, -, -, -, c, u, heap, hPoll⟩ := hv.exists_poll hne hWell
  obtain ⟨t, -, hIter', -, -, -, -, -, c', u', heap', hPoll'⟩ := hw.exists_poll hne hWell
  obtain ⟨⟩ := hIter.rest (i := 0) hIter'
  rw [hPoll] at hPoll'
  simp only [Option.some.injEq, Prod.mk.injEq, Triple.mk.injEq] at hPoll'
  omega

/-- The poll that settles `v`, in a state in which a node that is settled later is not settled. -/
theorem Settles.exists_poll_of_lt (hne : graph ≠ []) (hWell : WellFormed graph) {j k v w : ℕ}
    (hjk : j < k) (hv : Settles pq graph j v) (hw : Settles pq graph k w) :
    ∃ s, ∃ c u : ℕ, ∃ heap, Settling pq graph s ∧ pq.poll s.pq = some (⟨c, v, u⟩, heap) ∧
      v ∉ settledNodes s.marks ∧ w ∉ settledNodes s.marks ∧ w ≠ v := by
  obtain ⟨s, s', hIter, hs, hStep, hs', hBefore, hMarks, c, u, heap, hPoll⟩ :=
    hv.exists_poll hne hWell
  obtain ⟨t, -, hIter', -, -, -, hLater, -⟩ := hw.exists_poll hne hWell
  obtain ⟨i, rfl⟩ := Nat.exists_eq_add_of_lt hjk
  have hRest := hIter.rest (i := i + 1) (by rwa [← Nat.add_assoc])
  obtain _ | ⟨-, hStep', hRest⟩ := hRest
  rw [hStep] at hStep'
  cases hStep'
  have hws' : w ∉ settledNodes s'.marks := fun hw => hLater (settledNodes_subset hWell hRest hs' hw)
  rw [hMarks, Set.mem_insert_iff, not_or] at hws'
  exact ⟨s, c, u, heap, hs, hPoll, hBefore, hws'.2, hws'.1⟩

/-- A node is at most as far as the nodes that are settled after it. -/
theorem dist_le_of_settles (hne : graph ≠ []) (hWell : WellFormed graph) {j k v w d e : ℕ}
    (hjk : j < k) (hv : Settles pq graph j v) (hw : Settles pq graph k w)
    (hd : IsDist (Edge graph) 0 v d) (he : IsDist (Edge graph) 0 w e) : d ≤ e ∧ w ≠ v := by
  obtain ⟨s, c, u, heap, hs, hPoll, hvs, hws, hwv⟩ := hv.exists_poll_of_lt hne hWell hjk hw
  obtain ⟨hMem, hLeast⟩ := first_le_of_poll hPoll
  rw [hd.unique (hs.frontier.isDist hMem hLeast hvs)]
  exact ⟨hs.frontier.cost_le hLeast hws he.1, hwv⟩

end Order

/-! ### A queue that settles larger nodes first -/

/-- `TripleComparator.compare`, and among what it takes for equal, `second` in descending order. -/
def descending (o1 o2 : Triple) : Int :=
  if o1.first ≠ o2.first then o1.first - o2.first
  else if o1.third ≠ o2.third then o1.third - o2.third
  else o2.second - o1.second

def scanningDescending : PriorityQueue descending :=
  .scanning _ (by unfold descending; grind) (by unfold descending; grind)

/-- A priority queue for `TripleComparator` that polls the largest node of one parent first. -/
def descendingQueue : PriorityQueue TripleComparator.compare :=
  scanningDescending.coarsen (by unfold descending TripleComparator.compare; grind)

theorem descendingQueue_poll {heap heap' : descendingQueue.Heap} {c v u w : ℕ}
    (hPoll : descendingQueue.poll heap = some (⟨c, v, u⟩, heap'))
    (hw : (c, w, u) ∈ queuedTriples descendingQueue heap) : w ≤ v := by
  have hLeast : ¬descending ⟨c, w, u⟩ ⟨c, v, u⟩ < 0 :=
    scanningDescending.poll_least heap _ heap' hPoll _ hw
  simp only [descending, ne_eq, not_true_eq_false, if_false] at hLeast
  omega

/-- Two nodes at one distance whose parents can only be the same are settled in the wrong order. -/
theorem le_of_settles_descending {graph : List (List Int)} (hne : graph ≠ [])
    (hWell : WellFormed graph) {j k v w d : ℕ} (hjk : j < k)
    (hv : Settles descendingQueue graph j v) (hw : Settles descendingQueue graph k w)
    (hdv : IsDist (Edge graph) 0 v (d + 1)) (hdw : IsDist (Edge graph) 0 w (d + 1))
    (hParent : ∀ p q, IsDist (Edge graph) 0 p d → IsDist (Edge graph) 0 q d → p = q) : w ≤ v := by
  obtain ⟨s, c, u, heap, hs, hPoll, hvs, hws, -⟩ := hv.exists_poll_of_lt hne hWell hjk hw
  obtain ⟨hMem, hLeast⟩ := first_le_of_poll hPoll
  obtain rfl : c = d + 1 := (hs.frontier.isDist hMem hLeast hvs).unique hdv
  obtain ⟨h0, -⟩ | ⟨hu, hEdge, d', hdu, hd'⟩ := hs.frontier.candidate _ _ _ hMem
  · omega
  · obtain rfl : d = d' := by omega
    obtain ⟨p, hdp, hpw⟩ := hdw.exists_step
    obtain rfl := hParent p u hdp hdu
    exact descendingQueue_poll hPoll ((hs.frontier.step p hu w d hpw hdp).resolve_left hws)

/-! ### The order -/

/-- The nodes are settled in increasing order of distance and number, and the farthest node is the
one of least number, the same for every queue, exactly when no two nodes are at one distance. -/
theorem settling_order_iff (g : Graph) (hne : g.graph ≠ [])
    (hWell : ∀ l ∈ g.graph, ∀ v ∈ l, 0 ≤ v ∧ v < (g.graph.length : ℤ)) :
    ((∀ pq : PriorityQueue TripleComparator.compare,
        (∀ v, Relation.ReflTransGen (Edge g.graph) 0 v ↔ ∃ k, Settles pq g.graph k v) ∧
        ∀ j k v w d e, j < k → Settles pq g.graph j v → Settles pq g.graph k w →
          IsDist (Edge g.graph) 0 v d → IsDist (Edge g.graph) 0 w e → d < e ∨ d = e ∧ v < w) ∧
      ∃ f d : ℕ, IsLeast {v | IsDist (Edge g.graph) 0 v d} f ∧
        (∀ v e, IsDist (Edge g.graph) 0 v e → e ≤ d) ∧
        ∀ pq : PriorityQueue TripleComparator.compare,
          ∃ g', g.dijkstra pq = .ok g' ∧ g'.farthestNode = f) ↔
    ∀ v w d, IsDist (Edge g.graph) 0 v d → IsDist (Edge g.graph) 0 w d → v = w := by
  constructor
  · rintro ⟨hOrder, -⟩ v w d
    obtain ⟨hSettles, hOrder⟩ := hOrder descendingQueue
    induction d generalizing v w with
    | zero =>
      intro hv hw
      rw [← hv.zero_iff.mp rfl, ← hw.zero_iff.mp rfl]
    | succ d ih =>
      intro hv hw
      obtain ⟨j, hj⟩ := (hSettles v).mp (reachable_iff.mpr ⟨_, hv.1⟩)
      obtain ⟨k, hk⟩ := (hSettles w).mp (reachable_iff.mpr ⟨_, hw.1⟩)
      rcases lt_trichotomy j k with hjk | rfl | hjk
      · have := le_of_settles_descending hne hWell hjk hj hk hv hw ih
        have := hOrder j k v w _ _ hjk hj hk hv hw
        omega
      · exact hj.unique hne hWell hk
      · have := le_of_settles_descending hne hWell hjk hk hj hw hv ih
        have := hOrder k j w v _ _ hjk hk hj hw hv
        omega
  · intro hUnique
    obtain ⟨-, -, f, d, -, hf, hMax⟩ := dijkstra_farthest tripleQueue g hne hWell
    refine ⟨fun pq => ⟨fun v => exists_settles_iff pq hne hWell, ?order⟩,
      f, d, ⟨hf, fun v hv => (hUnique f v d hf hv).le⟩, hMax, ?farthest⟩
    case order =>
      intro j k v w d e hjk hv hw hd he
      obtain ⟨hle, hwv⟩ := dist_le_of_settles hne hWell hjk hv hw hd he
      rcases hle.lt_or_eq with hlt | rfl
      · exact .inl hlt
      · exact absurd (hUnique w v d he hd) hwv
    case farthest =>
      intro pq
      obtain ⟨g', hRun, f', d', hf', hDist, hMax'⟩ := dijkstra_farthest pq g hne hWell
      obtain rfl : d' = d := le_antisymm (hMax f' d' hDist) (hMax' f d hf)
      obtain rfl := hUnique f f' d' hf hDist
      exact ⟨g', hRun, hf'⟩

theorem settling_order_iff_path :
    ∃ f d : ℕ, IsDist (Edge [[1], [2], []]) 0 f d ∧
      ∀ pq : PriorityQueue TripleComparator.compare,
        ∃ g', ({ Graph.empty 0 ⟨.empty, 0, 0, 0, 0, 0, 0⟩ with
          graph := [[1], [2], []] } : Graph).dijkstra pq = .ok g' ∧ g'.farthestNode = f := by
  have hSteps : ∀ k u v, Steps (Edge [[1], [2], []]) k u v → v = u + k := by
    intro k u v h
    induction h with
    | refl => rfl
    | @tail k u v w _ hEdge ih =>
      have hNext : ∀ v < 3, ∀ w ∈ ([[1], [2], []] : List (List ℤ)).getD v [], w = v + 1 := by
        decide
      obtain ⟨hv, hw⟩ := edge_iff.mp hEdge
      have := hNext v hv w hw
      omega
  obtain ⟨-, f, d, hf, -, hRun⟩ := (settling_order_iff
    { Graph.empty 0 ⟨.empty, 0, 0, 0, 0, 0, 0⟩ with graph := [[1], [2], []] }
    (by decide) (by decide)).mpr fun v w d hv hw =>
      (hSteps d 0 v hv.1).trans (hSteps d 0 w hw.1).symm
  exact ⟨f, d, hf.1, hRun⟩

/-- Nodes 3 and 4 are two steps from node 0, and the parent of 4 is smaller than that of 3. -/
theorem settles_out_of_order :
    ∃ j k, j < k ∧ Settles tripleQueue [[1, 2], [0, 4], [0, 3], [2], [1]] j 4 ∧
      Settles tripleQueue [[1, 2], [0, 4], [0, 3], [2], [1]] k 3 ∧
      IsDist (Edge [[1, 2], [0, 4], [0, 3], [2], [1]]) 0 3 2 ∧
      IsDist (Edge [[1, 2], [0, 4], [0, 3], [2], [1]]) 0 4 2 ∧
      ({ Graph.empty 0 ⟨.empty, 0, 0, 0, 0, 0, 0⟩ with
        graph := [[1, 2], [0, 4], [0, 3], [2], [1]] } : Graph).dijkstra tripleQueue =
          .ok { Graph.empty 0 ⟨.empty, 0, 0, 0, 0, 0, 0⟩ with
            graph := [[1, 2], [0, 4], [0, 3], [2], [1]]
            parents := [0, 0, 0, 2, 1]
            farthestNode := 4 } := by
  have hLabel : ∀ u v, Edge [[1, 2], [0, 4], [0, 3], [2], [1]] u v →
      [0, 1, 1, 2, 2].getD v 0 ≤ [0, 1, 1, 2, 2].getD u 0 + 1 := by
    intro u v hEdge
    have hAll : ∀ u < 5, ∀ v ∈ ([[1, 2], [0, 4], [0, 3], [2], [1]] : List (List ℤ)).getD u [],
        [0, 1, 1, 2, 2].getD v.toNat 0 ≤ [0, 1, 1, 2, 2].getD u 0 + 1 := by decide
    obtain ⟨hu, hv⟩ := edge_iff.mp hEdge
    simpa using hAll u hu v hv
  refine ⟨3, 5, by decide, ?_, ?_, ⟨?_, ?_⟩, ⟨?_, ?_⟩, rfl⟩
  · exact ⟨_, _, iterates_of_repeatBody (fun _ _ => unfinished_of_settle) rfl, rfl, rfl, rfl, rfl⟩
  · exact ⟨_, _, iterates_of_repeatBody (fun _ _ => unfinished_of_settle) rfl, rfl, rfl, rfl, rfl⟩
  · exact .tail (.single (edge_iff.mpr (by decide))) (show Edge _ 2 3 from edge_iff.mpr (by decide))
  · exact fun k hk => by simpa using hk.le_label _ hLabel
  · exact .tail (.single (edge_iff.mpr (by decide))) (show Edge _ 1 4 from edge_iff.mpr (by decide))
  · exact fun k hk => by simpa using hk.le_label _ hLabel

end TaquinSolver
