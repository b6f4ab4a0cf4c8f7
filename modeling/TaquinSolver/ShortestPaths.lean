import TaquinSolver.Search.Frontier
import TaquinSolver.Solve.Graph

/-! `dijkstra` on any well-formed adjacency lists, with any priority queue for `TripleComparator`.
The settled nodes, whose mark is `false`, and the queued triples keep the invariant `Frontier`, and
`Settling` adds what the arrays hold.  Each iteration takes one triple off the queue and moves the
edges of at most one node onto it, so `work` drops by exactly one. -/

namespace TaquinSolver

open Java Search

/-- Node `v` is in the list of node `u`. -/
def Edge (graph : List (List Int)) (u v : ℕ) : Prop := ∃ l, graph[u]? = some l ∧ (v : ℤ) ∈ l

theorem edge_iff {graph : List (List Int)} {u v : ℕ} :
    Edge graph u v ↔ u < graph.length ∧ (v : ℤ) ∈ graph.getD u [] := by
  constructor
  · rintro ⟨l, hl, hv⟩
    refine ⟨(List.getElem?_eq_some_iff.mp hl).1, ?_⟩
    rwa [List.getD_eq_getElem?_getD, hl]
  · rintro ⟨hu, hv⟩
    rw [List.getD_eq_getElem _ _ hu] at hv
    exact ⟨_, List.getElem?_eq_getElem hu, hv⟩

/-- Every entry is the number of a node. -/
def WellFormed (graph : List (List Int)) : Prop :=
  ∀ l ∈ graph, ∀ v ∈ l, 0 ≤ v ∧ v < graph.length

theorem WellFormed.exists_edge {graph : List (List Int)} (h : WellFormed graph) {u : ℕ}
    {l : List Int} (hl : graph[u]? = some l) {v : ℤ} (hv : v ∈ l) :
    ∃ w : ℕ, v = w ∧ w < graph.length ∧ Edge graph u w := by
  obtain ⟨h0, hLt⟩ := h l (List.mem_of_getElem? hl) v hv
  obtain ⟨w, rfl⟩ := Int.eq_ofNat_of_zero_le h0
  exact ⟨w, rfl, by exact_mod_cast hLt, l, hl, hv⟩

theorem TripleComparator.first_le {a b : Triple} (h : ¬TripleComparator.compare b a < 0) :
    a.first ≤ b.first := by
  unfold TripleComparator.compare at h
  split at h
  · omega
  · omega

/-- A priority queue for `TripleComparator`. -/
def tripleQueue : PriorityQueue TripleComparator.compare :=
  .scanning _ (by unfold TripleComparator.compare; grind)
    (by unfold TripleComparator.compare; grind)

/-! ### The invariant -/

section Settling

variable (pq : PriorityQueue TripleComparator.compare) (graph : List (List Int))

def settledNodes (marks : List Bool) : Set ℕ := {v | marks[v]? = some false}

def queuedTriples (heap : pq.Heap) : Set (ℕ × ℕ × ℕ) :=
  {t | (⟨(t.1 : ℕ), (t.2.1 : ℕ), (t.2.2 : ℕ)⟩ : Triple) ∈ pq.elems heap}

/-- The entries in the lists of the nodes that are not settled. -/
def unusedEdges (marks : List Bool) : ℕ :=
  (List.zipWith (fun mark l => if mark then l.length else 0) marks graph).sum

/-- The number of iterations that are left. -/
def work (s : Graph.Search pq.Heap) : ℕ :=
  Multiset.card (pq.elems s.pq) + unusedEdges graph s.marks

structure Settling (s : Graph.Search pq.Heap) : Prop where
  frontier : Frontier (Edge graph) 0 (settledNodes s.marks) (queuedTriples pq s.pq)
  triple : ∀ t ∈ pq.elems s.pq, ∃ c v u : ℕ, t = ⟨c, v, u⟩ ∧ v < graph.length
  marks : s.marks.length = graph.length
  parents : s.parents.length = graph.length
  unsettled : ∀ v : ℕ, s.marks[v]? = some true → s.parents[v]? = some (v : ℤ)
  settled : ∀ v : ℕ, s.marks[v]? = some false → ∃ p : ℕ, s.parents[v]? = some (p : ℤ) ∧
    ((v = 0 ∧ p = 0) ∨ (v ≠ 0 ∧ Precedes (Edge graph) 0 p v))
  farthest : ∃ f d : ℕ, s.farthestNode = f ∧ s.farthestDistance = d ∧ IsDist (Edge graph) 0 f d ∧
    ∀ v ∈ settledNodes s.marks, ∀ e, IsDist (Edge graph) 0 v e → e ≤ d

variable {pq graph}

theorem Settling.mark {s : Graph.Search pq.Heap} (h : Settling pq graph s) {v : ℕ}
    (hv : v < graph.length) : s.marks[v]? = some true ∨ s.marks[v]? = some false := by
  obtain ⟨mark, hMark⟩ : ∃ mark, s.marks[v]? = some mark :=
    ⟨_, List.getElem?_eq_getElem (h.marks ▸ hv)⟩
  cases mark with
  | false => exact .inr hMark
  | true => exact .inl hMark

theorem unusedEdges_set {marks : List Bool} {v : ℕ} {l : List Int}
    (hMark : marks[v]? = some true) (hl : graph[v]? = some l) :
    unusedEdges graph (marks.set v false) + l.length = unusedEdges graph marks := by
  induction marks generalizing graph v with
  | nil => simp at hMark
  | cons m marks ih =>
    cases graph with
    | nil => simp at hl
    | cons l' graph =>
      cases v with
      | zero =>
        simp only [List.getElem?_cons_zero, Option.some.injEq] at hMark hl
        subst hMark hl
        simp [unusedEdges, Nat.add_comm]
      | succ v =>
        simp only [List.getElem?_cons_succ] at hMark hl
        have := ih hMark hl
        simp only [unusedEdges, List.set_cons_succ, List.zipWith_cons_cons, List.sum_cons] at this ⊢
        omega

theorem settledNodes_set {marks : List Bool} {v : ℕ} (hv : v < marks.length) :
    settledNodes (marks.set v false) = insert v (settledNodes marks) := by
  ext w
  simp only [settledNodes, Set.mem_ofPred_eq, Set.mem_insert_iff, List.getElem?_set]
  by_cases hvw : v = w
  · subst hvw
    simp [hv]
  · simp [hvw, Ne.symm hvw]

theorem startSearch_settling (hne : graph ≠ []) :
    Settling pq graph (Graph.startSearch pq graph) := by
  have hPos : 0 < graph.length := List.length_pos_iff.mpr hne
  have hElems : pq.elems (pq.add pq.empty ⟨0, 0, 0⟩) = {⟨0, 0, 0⟩} := by
    rw [pq.elems_add, pq.elems_empty]
    rfl
  have hNone : ∀ v : ℕ, (List.replicate graph.length true)[v]? ≠ some false := by
    intro v hv
    have := List.mem_of_getElem? hv
    simp at this
  have hSettled : settledNodes (List.replicate graph.length true) = ∅ :=
    Set.eq_empty_of_forall_notMem hNone
  have hQueued : queuedTriples pq (pq.add pq.empty ⟨0, 0, 0⟩) = {(0, 0, 0)} := by
    ext ⟨c, v, u⟩
    simp only [queuedTriples, hElems, Set.mem_ofPred_eq, Multiset.mem_singleton, Triple.mk.injEq,
      Set.mem_singleton_iff, Prod.mk.injEq]
    omega
  constructor
  case frontier =>
    simp only [Graph.startSearch]
    rw [hSettled, hQueued]
    exact .init _ 0
  case triple =>
    intro t ht
    simp only [Graph.startSearch, hElems, Multiset.mem_singleton] at ht
    exact ⟨0, 0, 0, ht, hPos⟩
  case marks => simp [Graph.startSearch]
  case parents => simp [Graph.startSearch]
  case unsettled =>
    intro v hv
    have hLt := (List.getElem?_eq_some_iff.mp hv).1
    simp only [Graph.startSearch, List.length_replicate] at hLt
    simp [Graph.startSearch, hLt]
  case settled =>
    intro v hv
    exact absurd hv (hNone v)
  case farthest =>
    refine ⟨0, 0, rfl, rfl, ⟨.refl 0, fun _ _ => Nat.zero_le _⟩, fun v hv => ?_⟩
    exact absurd hv (hNone v)

theorem work_startSearch :
    work pq graph (Graph.startSearch pq graph) = 1 + (graph.map List.length).sum := by
  have hAll : ∀ graph : List (List Int), unusedEdges graph (List.replicate graph.length true) =
      (graph.map List.length).sum := by
    intro graph
    induction graph with
    | nil => rfl
    | cons l graph ih =>
      rw [List.length_cons, List.replicate_succ, List.map_cons, List.sum_cons, ← ih]
      rfl
  rw [work, ← hAll]
  simp [Graph.startSearch, pq.elems_add, pq.elems_empty]

theorem queuedTriples_subset {heap heap' : pq.Heap} {c v u : ℕ}
    (hElems : pq.elems heap = ⟨c, v, u⟩ ::ₘ pq.elems heap') :
    queuedTriples pq heap' ⊆ queuedTriples pq heap ∧
      queuedTriples pq heap ⊆ insert (c, v, u) (queuedTriples pq heap') := by
  constructor
  · intro t ht
    simp only [queuedTriples, hElems, Set.mem_ofPred_eq]
    exact Multiset.mem_cons_of_mem ht
  · rintro ⟨c', v', u'⟩ ht
    simp only [queuedTriples, hElems, Set.mem_ofPred_eq, Multiset.mem_cons, Triple.mk.injEq] at ht
    rcases ht with ⟨h1, h2, h3⟩ | ht
    · left
      rw [Prod.mk.injEq, Prod.mk.injEq]
      omega
    · exact .inr ht

/-- The candidates after the edges of `v` have been queued. -/
theorem mem_queuedTriples_addAll (hWell : WellFormed graph) {heap : pq.Heap} {c v : ℕ}
    {l : List Int} (hl : graph[v]? = some l) {t : ℕ × ℕ × ℕ} :
    t ∈ queuedTriples pq (pq.addAll heap (l.map fun w => ⟨c + 1, w, v⟩)) ↔
      t ∈ queuedTriples pq heap ∨ ∃ w, Edge graph v w ∧ t = (c + 1, w, v) := by
  obtain ⟨c', v', u'⟩ := t
  rw [queuedTriples, Set.mem_ofPred_eq, pq.elems_addAll, Multiset.mem_add, or_comm]
  apply or_congr Iff.rfl
  rw [Multiset.mem_coe, List.mem_map]
  constructor
  · rintro ⟨w, hw, heq⟩
    obtain ⟨w', rfl, -, hEdge⟩ := hWell.exists_edge hl hw
    simp only [Triple.mk.injEq] at heq
    refine ⟨w', hEdge, ?_⟩
    rw [Prod.mk.injEq, Prod.mk.injEq]
    omega
  · rintro ⟨w, ⟨l', hl', hw⟩, heq⟩
    cases heq
    obtain rfl : l = l' := Option.some.inj (hl.symm.trans hl')
    exact ⟨_, hw, by push_cast; rfl⟩

theorem first_le_of_poll {heap heap' : pq.Heap} {c v u : ℕ}
    (hPoll : pq.poll heap = some (⟨c, v, u⟩, heap')) :
    (c, v, u) ∈ queuedTriples pq heap ∧ ∀ t ∈ queuedTriples pq heap, c ≤ t.1 := by
  constructor
  · show (⟨c, v, u⟩ : Triple) ∈ pq.elems heap
    rw [pq.elems_of_poll _ _ _ hPoll]
    exact Multiset.mem_cons_self _ _
  · intro t ht
    have := TripleComparator.first_le (pq.poll_least _ _ _ hPoll _ ht)
    exact Int.ofNat_le.mp this

/-- A triple of a settled node is dropped. -/
theorem settle_stale {s : Graph.Search pq.Heap} (h : Settling pq graph s) {heap : pq.Heap}
    {c v u : ℕ} (hPoll : pq.poll s.pq = some (⟨c, v, u⟩, heap))
    (hMark : s.marks[v]? = some false) :
    Graph.settle pq graph s = .ok { s with pq := heap } ∧ Settling pq graph { s with pq := heap } ∧
      work pq graph { s with pq := heap } + 1 = work pq graph s := by
  have hElems := pq.elems_of_poll _ _ _ hPoll
  obtain ⟨hSub, hSup⟩ := queuedTriples_subset hElems
  have hFrontier := h.frontier.drop (t := (c, v, u)) hMark hSub hSup
  refine ⟨?_, { h with frontier := hFrontier, triple := fun t ht => ?_ }, ?_⟩
  · simp [Graph.settle, hPoll, listGet_natCast.mpr hMark]
  · exact h.triple t (hElems ▸ Multiset.mem_cons_of_mem ht)
  · simp only [work, hElems, Multiset.card_cons]
    omega

/-- The arrays after node `v`, which was not settled, is settled with the parent `u`. -/
theorem settled_set {s : Graph.Search pq.Heap} (h : Settling pq graph s) {v u : ℕ}
    (hv : v < graph.length)
    (hParent : (v = 0 ∧ u = 0) ∨ (v ≠ 0 ∧ Precedes (Edge graph) 0 u v)) :
    (∀ w : ℕ, (s.marks.set v false)[w]? = some true →
      (s.parents.set v (u : ℤ))[w]? = some (w : ℤ)) ∧
    (∀ w : ℕ, (s.marks.set v false)[w]? = some false →
      ∃ p : ℕ, (s.parents.set v (u : ℤ))[w]? = some (p : ℤ) ∧
        ((w = 0 ∧ p = 0) ∨ (w ≠ 0 ∧ Precedes (Edge graph) 0 p w))) := by
  have hMarks := h.marks
  have hParents := h.parents
  constructor
  · intro w hw
    by_cases hvw : v = w
    · subst hvw
      simp [hMarks, hv] at hw
    · rw [List.getElem?_set_ne hvw] at hw ⊢
      exact h.unsettled w hw
  · intro w hw
    by_cases hvw : v = w
    · subst hvw
      exact ⟨u, by simp [hParents, hv], hParent⟩
    · rw [List.getElem?_set_ne hvw] at hw ⊢
      exact h.settled w hw

/-- The farthest node after node `v` is settled at the distance `c`. -/
theorem farthest_insert {s : Graph.Search pq.Heap} (h : Settling pq graph s) {c v : ℕ}
    (hDist : IsDist (Edge graph) 0 v c) :
    ∃ f d : ℕ, (if (c : ℤ) > s.farthestDistance then (v : ℤ) else s.farthestNode) = f ∧
      (if (c : ℤ) > s.farthestDistance then (c : ℤ) else s.farthestDistance) = d ∧
      IsDist (Edge graph) 0 f d ∧
      ∀ w ∈ insert v (settledNodes s.marks), ∀ e, IsDist (Edge graph) 0 w e → e ≤ d := by
  obtain ⟨f, d, hf, hd, hFarDist, hFarMax⟩ := h.farthest
  rw [hf, hd]
  by_cases hFar : (c : ℤ) > d
  · refine ⟨v, c, by rw [if_pos hFar], by rw [if_pos hFar], hDist, ?_⟩
    rintro w (rfl | hw) e he
    · exact (he.unique hDist).le
    · have := hFarMax w hw e he
      omega
  · refine ⟨f, d, by rw [if_neg hFar], by rw [if_neg hFar], hFarDist, ?_⟩
    rintro w (rfl | hw) e he
    · rw [he.unique hDist]
      omega
    · exact hFarMax w hw e he

theorem settle_of_unsettled {s : Graph.Search pq.Heap} (h : Settling pq graph s) {heap : pq.Heap}
    {c v u : ℕ} (hPoll : pq.poll s.pq = some (⟨c, v, u⟩, heap)) {l : List Int}
    (hl : graph[v]? = some l) (hMark : s.marks[v]? = some true) :
    Graph.settle pq graph s = .ok {
      pq := pq.addAll heap (l.map fun w => ⟨c + 1, w, v⟩)
      marks := s.marks.set v false
      parents := s.parents.set v u
      farthestDistance := if (c : ℤ) > s.farthestDistance then c else s.farthestDistance
      farthestNode := if (c : ℤ) > s.farthestDistance then v else s.farthestNode } := by
  have hv : v < graph.length := (List.getElem?_eq_some_iff.mp hl).1
  simp only [Graph.settle, hPoll, listGet_natCast.mpr hMark, Result.ok_bind, if_true,
    listSet_of_lt (h.marks ▸ hv), listSet_of_lt (h.parents ▸ hv), listGet_natCast.mpr hl,
    Result.pure_eq]
  split <;> rfl

/-- A triple of a node that is not settled settles it. -/
theorem settle_fresh {s : Graph.Search pq.Heap} (hWell : WellFormed graph)
    (h : Settling pq graph s) {heap : pq.Heap} {c v u : ℕ}
    (hPoll : pq.poll s.pq = some (⟨c, v, u⟩, heap)) (hv : v < graph.length)
    (hMark : s.marks[v]? = some true) :
    ∃ s', Graph.settle pq graph s = .ok s' ∧ Settling pq graph s' ∧
      work pq graph s' + 1 = work pq graph s := by
  have hElems := pq.elems_of_poll _ _ _ hPoll
  obtain ⟨hSub, hSup⟩ := queuedTriples_subset hElems
  obtain ⟨hMem, hLeast⟩ := first_le_of_poll hPoll
  have hFresh : v ∉ settledNodes s.marks := by
    intro hSettled
    rw [settledNodes, Set.mem_ofPred_eq, hMark] at hSettled
    cases hSettled
  have hDist := h.frontier.isDist hMem hLeast hFresh
  obtain ⟨hUnsettled, hSettled⟩ := settled_set h hv (h.frontier.precedes hMem hLeast hFresh)
  have hl : graph[v]? = some graph[v] := List.getElem?_eq_getElem hv
  have hNext : pq.elems (pq.addAll heap (graph[v].map fun w => ⟨c + 1, w, v⟩)) =
      ((graph[v].map fun w => (⟨c + 1, w, v⟩ : Triple)) : Multiset Triple) + pq.elems heap :=
    pq.elems_addAll _ _
  refine ⟨_, settle_of_unsettled h hPoll hl hMark, ?_, ?_⟩
  · constructor
    case frontier =>
      rw [settledNodes_set (h.marks ▸ hv)]
      apply h.frontier.settle hMem hLeast hFresh
      · intro t ht
        rcases (mem_queuedTriples_addAll hWell hl).mp ht with ht | hNew
        · exact .inl (hSub ht)
        · exact .inr hNew
      · intro t ht
        rcases hSup ht with rfl | ht
        · exact .inl rfl
        · exact .inr ((mem_queuedTriples_addAll hWell hl).mpr (.inl ht))
      · intro w hEdge
        exact (mem_queuedTriples_addAll hWell hl).mpr (.inr ⟨w, hEdge, rfl⟩)
    case triple =>
      intro t ht
      rw [hNext, Multiset.mem_add] at ht
      rcases ht with ht | ht
      · obtain ⟨w, hw, rfl⟩ := List.mem_map.mp (Multiset.mem_coe.mp ht)
        obtain ⟨w', rfl, hLt, -⟩ := hWell.exists_edge hl hw
        exact ⟨c + 1, w', v, by push_cast; rfl, hLt⟩
      · exact h.triple t (hElems ▸ Multiset.mem_cons_of_mem ht)
    case marks => simp [h.marks]
    case parents => simp [h.parents]
    case unsettled => exact hUnsettled
    case settled => exact hSettled
    case farthest =>
      simp only [settledNodes_set (h.marks ▸ hv)]
      exact farthest_insert h hDist
  · have := unusedEdges_set hMark hl
    simp only [work, hElems, hNext, Multiset.card_add, Multiset.card_cons, Multiset.coe_card,
      List.length_map]
    omega

theorem Settling.exists_poll {s : Graph.Search pq.Heap} (h : Settling pq graph s)
    (hCond : Graph.unfinished pq s = true) :
    ∃ c v u : ℕ, ∃ heap, pq.poll s.pq = some (⟨c, v, u⟩, heap) ∧ v < graph.length := by
  rw [Graph.unfinished, PriorityQueue.isEmpty, Bool.not_eq_true', Option.isNone_eq_false_iff,
    Option.isSome_iff_exists] at hCond
  obtain ⟨⟨aux, heap⟩, hPoll⟩ := hCond
  have hMem : aux ∈ pq.elems s.pq := by
    rw [pq.elems_of_poll _ _ _ hPoll]
    exact Multiset.mem_cons_self _ _
  obtain ⟨c, v, u, rfl, hv⟩ := h.triple aux hMem
  exact ⟨c, v, u, heap, hPoll, hv⟩

/-- One iteration returns, keeps the invariant, and lowers `work` by one. -/
theorem settle_eq {s : Graph.Search pq.Heap} (hWell : WellFormed graph) (h : Settling pq graph s)
    (hCond : Graph.unfinished pq s = true) :
    ∃ s', Graph.settle pq graph s = .ok s' ∧ Settling pq graph s' ∧
      work pq graph s' + 1 = work pq graph s := by
  obtain ⟨c, v, u, heap, hPoll, hv⟩ := h.exists_poll hCond
  rcases h.mark hv with hMark | hMark
  · exact settle_fresh hWell h hPoll hv hMark
  · exact ⟨_, settle_stale h hPoll hMark⟩

theorem Settling.settle {s s' : Graph.Search pq.Heap} (hWell : WellFormed graph)
    (h : Settling pq graph s) (hCond : Graph.unfinished pq s = true)
    (hStep : Graph.settle pq graph s = .ok s') :
    Settling pq graph s' ∧ work pq graph s' + 1 = work pq graph s := by
  obtain ⟨s'', hStep', hs'⟩ := settle_eq hWell h hCond
  obtain rfl : s' = s'' := Except.ok.inj (hStep.symm.trans hStep')
  exact hs'

/-! ### The result -/

theorem elems_of_finished {s : Graph.Search pq.Heap} (h : Graph.unfinished pq s = false) :
    pq.elems s.pq = 0 := by
  rw [Graph.unfinished, PriorityQueue.isEmpty, Bool.not_eq_false', Option.isNone_iff_eq_none] at h
  exact pq.elems_of_poll_none _ h

/-- The loop of `dijkstra` ends, and has settled everything reachable then. -/
theorem exists_settled (pq : PriorityQueue TripleComparator.compare) {graph : List (List Int)}
    (hne : graph ≠ []) (hWell : WellFormed graph) :
    ∃ k s, Iterates (Graph.unfinished pq) (Graph.settle pq graph) k (Graph.startSearch pq graph) s ∧
      Graph.unfinished pq s = false ∧ Settling pq graph s ∧
      work pq graph s + k = 1 + (graph.map List.length).sum ∧
      ∀ v : ℕ, s.marks[v]? = some false ↔ ∃ j, Steps (Edge graph) j 0 v := by
  have hStart : Settling pq graph (Graph.startSearch pq graph) := startSearch_settling hne
  obtain ⟨k, -, s, hIter, hs, hStop⟩ :=
    exists_iterates (P := Settling pq graph) (work pq graph)
      (fun s hs hCond => by
        obtain ⟨s', hStep, hs', hWork⟩ := settle_eq hWell hs hCond
        exact ⟨s', hStep, hs', by omega⟩)
      hStart
  have hCount := hIter.measure_add (P := Settling pq graph) (work pq graph)
    (fun s s' hs hCond hBody => hs.settle hWell hCond hBody) hStart
  rw [work_startSearch] at hCount
  refine ⟨k, s, hIter, hStop, hs, hCount, fun v => ⟨fun hv => ?_, ?_⟩⟩
  · obtain ⟨d, hd⟩ := hs.frontier.dist v hv
    exact ⟨d, hd.1⟩
  · rintro ⟨j, hSteps⟩
    have hEmpty : queuedTriples pq s.pq = ∅ := by
      apply Set.eq_empty_of_forall_notMem
      intro t ht
      rw [queuedTriples, Set.mem_ofPred_eq, elems_of_finished hStop] at ht
      exact Multiset.notMem_zero _ ht
    exact (hEmpty ▸ hs.frontier).mem_settled hSteps

/-- `dijkstra` returns what its loop ends with. -/
theorem dijkstra_eq (pq : PriorityQueue TripleComparator.compare) (g : Graph) (hne : g.graph ≠ [])
    (hWell : WellFormed g.graph) :
    ∃ s, g.dijkstra pq = .ok { g with parents := s.parents, farthestNode := s.farthestNode } ∧
      Settling pq g.graph s ∧
      ∀ v : ℕ, s.marks[v]? = some false ↔ ∃ k, Steps (Edge g.graph) k 0 v := by
  obtain ⟨k, s, hIter, hStop, hs, hCount, hSettled⟩ := exists_settled pq hne hWell
  refine ⟨s, ?_, hs, hSettled⟩
  rw [Graph.dijkstra, hIter.whileLoop_eq hStop (by omega)]
  rfl

theorem dijkstra_farthest (pq : PriorityQueue TripleComparator.compare) (g : Graph)
    (hne : g.graph ≠ []) (hWell : WellFormed g.graph) :
    ∃ g', g.dijkstra pq = .ok g' ∧ ∃ f d : ℕ, g'.farthestNode = f ∧ IsDist (Edge g.graph) 0 f d ∧
      ∀ v e : ℕ, IsDist (Edge g.graph) 0 v e → e ≤ d := by
  obtain ⟨s, hRun, hs, hSettled⟩ := dijkstra_eq pq g hne hWell
  obtain ⟨f, d, hf, -, hDist, hMax⟩ := hs.farthest
  exact ⟨_, hRun, f, d, hf, hDist, fun v e he => hMax v ((hSettled v).mpr ⟨e, he.1⟩) e he⟩

end Settling

/-- `dijkstra` on any graph, with any priority queue: parents precede their nodes on shortest walks
from node 0, nodes out of reach keep themselves as parents, and the farthest node is farthest. -/
theorem dijkstra_correct (pq : PriorityQueue TripleComparator.compare) (g : Graph)
    (hne : g.graph ≠ []) (hWell : ∀ l ∈ g.graph, ∀ v ∈ l, 0 ≤ v ∧ v < (g.graph.length : ℤ)) :
    ∃ g', g.dijkstra pq = .ok g' ∧ g'.graph = g.graph ∧ g'.getParent 0 = .ok 0 ∧
      (∀ v : ℕ, v ≠ 0 → Relation.ReflTransGen (Edge g.graph) 0 v →
        ∃ p : ℕ, g'.getParent v = .ok p ∧ Edge g.graph p v ∧
          ∃ d, IsDist (Edge g.graph) 0 p d ∧ IsDist (Edge g.graph) 0 v (d + 1)) ∧
      (∀ v : ℕ, v < g.graph.length → ¬Relation.ReflTransGen (Edge g.graph) 0 v →
        g'.getParent v = .ok v) ∧
      ∃ f d : ℕ, g'.farthestNode = f ∧ IsDist (Edge g.graph) 0 f d ∧
        ∀ v e : ℕ, IsDist (Edge g.graph) 0 v e → e ≤ d := by
  obtain ⟨s, hRun, hs, hSettled⟩ := dijkstra_eq pq g hne hWell
  refine ⟨_, hRun, rfl, ?root, fun v hv hReach => ?reachable, fun v hv hReach => ?unreachable,
    ?farthest⟩
  case root =>
    obtain ⟨p, hp, ⟨-, rfl⟩ | ⟨h0, -⟩⟩ := hs.settled 0 ((hSettled 0).mpr ⟨0, .refl 0⟩)
    · exact listGet_natCast.mpr hp
    · exact absurd rfl h0
  case reachable =>
    obtain ⟨p, hp, ⟨h0, -⟩ | ⟨-, hStep, hDist⟩⟩ :=
      hs.settled v ((hSettled v).mpr (reachable_iff.mp hReach))
    · exact absurd h0 hv
    · exact ⟨p, listGet_natCast.mpr hp, hStep, hDist⟩
  case unreachable =>
    rcases hs.mark hv with hMark | hMark
    · exact listGet_natCast.mpr (hs.unsettled v hMark)
    · exact absurd (reachable_iff.mpr ((hSettled v).mp hMark)) hReach
  case farthest =>
    obtain ⟨f, d, hf, -, hDist, hMax⟩ := hs.farthest
    exact ⟨f, d, hf, hDist, fun v e he => hMax v ((hSettled v).mpr ⟨e, he.1⟩) e he⟩

theorem dijkstra_correct_cycle :
    ∃ g', ({ Graph.empty 0 ⟨.empty, 0, 0, 0, 0, 0, 0⟩ with
        graph := [[0, 1, 1], [2], [0], [3]] } : Graph).dijkstra tripleQueue = .ok g' ∧
      g'.graph = [[0, 1, 1], [2], [0], [3]] ∧ g'.getParent 0 = .ok 0 ∧
      ∃ f d : ℕ, g'.farthestNode = f ∧ IsDist (Edge [[0, 1, 1], [2], [0], [3]]) 0 f d := by
  obtain ⟨g', hRun, hGraph, hRoot, -, -, f, d, hf, hDist, -⟩ := dijkstra_correct tripleQueue
    { Graph.empty 0 ⟨.empty, 0, 0, 0, 0, 0, 0⟩ with graph := [[0, 1, 1], [2], [0], [3]] }
    (by decide) (by decide)
  exact ⟨g', hRun, hGraph, hRoot, f, d, hf, hDist⟩

end TaquinSolver
