import Mathlib.Data.Fintype.Perm
import TaquinSolver.Packed
import TaquinSolver.Search.Tree
import TaquinSolver.Solve.Graph

/-! `creatGraph` is a breadth-first numbering of the boards that moves reach from the goal.
`Stores` relates the fields of a graph to a numbering, and `Building` adds the queue, which holds
the boards from `head` on.  One direction of `tryMove` is one `visit`, one iteration of the loop is
one `expand`, and the loop ends at the complete numbering (`creatGraph_eq`). -/

namespace TaquinSolver

open Java Sliding Search Search.Bfs

variable {n : ℕ}

/-! ### The moves of a board, in the order of the directions -/

def blank (hn : 0 < n) (b : Board n) : Cell n := b.symm ⟨0, Nat.mul_pos hn hn⟩

theorem isBlank_blank (hn : 0 < n) (b : Board n) : IsBlank b (blank hn b) := by
  simp [IsBlank, blank]

theorem blank_eq {hn : 0 < n} {b : Board n} {c : Cell n} (h : IsBlank b c) : blank hn b = c :=
  (isBlank_blank hn b).unique h

theorem blank_slide {hn : 0 < n} (b : Board n) (c' : Cell n) :
    blank hn (slide b (blank hn b) c') = c' :=
  blank_eq ((isBlank_blank hn b).slide c')

/-- The cell at `d` from `c`, when it is on the board. -/
def shift (c : Cell n) (d : ℤ × ℤ) : Option (Cell n) :=
  if h : (0 ≤ c.1 + d.1 ∧ c.1 + d.1 < n) ∧ 0 ≤ c.2 + d.2 ∧ c.2 + d.2 < n then
    some (⟨(c.1 + d.1).toNat, by omega⟩, ⟨(c.2 + d.2).toNat, by omega⟩)
  else none

theorem shift_eq_some {c c' : Cell n} {d : ℤ × ℤ} :
    shift c d = some c' ↔ (c.1 : ℤ) + d.1 = (c'.1 : ℕ) ∧ (c.2 : ℤ) + d.2 = (c'.2 : ℕ) := by
  have h1 := c'.1.isLt
  have h2 := c'.2.isLt
  unfold shift
  split
  · rw [Option.some.injEq, Prod.ext_iff, Fin.ext_iff, Fin.ext_iff]
    simp only
    omega
  · simp only [reduceCtorEq, false_iff]
    omega

theorem shift_eq_none {c : Cell n} {d : ℤ × ℤ} : shift c d = none ↔
    ¬((0 ≤ c.1 + d.1 ∧ c.1 + d.1 < n) ∧ 0 ≤ c.2 + d.2 ∧ c.2 + d.2 < n) := by
  simp [shift]

theorem adjacent_iff {c c' : Cell n} :
    Adjacent c c' ↔ ∃ d ∈ Graph.directions, shift c d = some c' := by
  simp only [shift_eq_some, Graph.directions, Adjacent, taxicab]
  constructor
  · intro h
    refine ⟨((c'.1 : ℤ) - c.1, (c'.2 : ℤ) - c.2), ?_, by omega, by omega⟩
    have : ((c'.1 : ℤ) - c.1 = 1 ∧ (c'.2 : ℤ) - c.2 = 0) ∨
        ((c'.1 : ℤ) - c.1 = 0 ∧ (c'.2 : ℤ) - c.2 = 1) ∨
        ((c'.1 : ℤ) - c.1 = -1 ∧ (c'.2 : ℤ) - c.2 = 0) ∨
        ((c'.1 : ℤ) - c.1 = 0 ∧ (c'.2 : ℤ) - c.2 = -1) := by omega
    rcases this with ⟨h1, h2⟩ | ⟨h1, h2⟩ | ⟨h1, h2⟩ | ⟨h1, h2⟩ <;> rw [h1, h2] <;> decide
  · rintro ⟨d, hd, h1, h2⟩
    simp at hd
    rcases hd with rfl | rfl | rfl | rfl <;> simp only at h1 h2 <;> omega

/-- The boards one move from `b`, in the order in which `creatGraph` tries them. -/
def next (hn : 0 < n) (b : Board n) : List (Board n) :=
  Graph.directions.filterMap fun d => (shift (blank hn b) d).map (slide b (blank hn b))

theorem mem_next {hn : 0 < n} {b b' : Board n} : b' ∈ next hn b ↔ Move b b' := by
  simp only [next, List.mem_filterMap, Option.map_eq_some_iff]
  constructor
  · rintro ⟨d, hd, c', hc', rfl⟩
    exact ⟨_, c', isBlank_blank hn b, adjacent_iff.mpr ⟨d, hd, hc'⟩, rfl⟩
  · rintro ⟨c, c', hc, hAdj, rfl⟩
    obtain ⟨d, hd, hShift⟩ := adjacent_iff.mp hAdj
    rw [blank_eq hc]
    exact ⟨d, hd, c', hShift, rfl⟩

/-! ### What the fields hold -/

/-- The node `nd` keeps the board `b` and the cell of its blank. -/
structure Represents (hn : 0 < n) (nd : Node) (b : Board n) : Prop where
  board : Shows (width n) (width n * (n * n) : ℕ) nd.taquinBS b
  row : nd.iPuzzle = ((blank hn b).1 : ℕ)
  column : nd.jPuzzle = ((blank hn b).2 : ℕ)

/-- `ids` finds the position of each node by its packed board, and finds nothing else. -/
def Indexes (ids : HashMap BitSet Int) (nodes : List Node) : Prop :=
  ∀ bs (k : ℤ), ids.lookup bs = some k ↔
    ∃ v : ℕ, k = v ∧ ∃ nd, nodes[v]? = some nd ∧ nd.taquinBS = bs

/-- The fields of `g` hold the boards and the edges of discovery of `num`. -/
structure Stores (hn : 0 < n) (num : Discovery (Board n)) (g : Graph) : Prop where
  side : g.n = n
  nbits : g.taquin.nbits = width n
  sizeBS : g.taquin.sizeBS = (width n * (n * n) : ℕ)
  length : g.reverseIds.length = num.seen.length
  node : ∀ (v : ℕ) b, num.seen[v]? = some b →
    ∃ nd, g.reverseIds[v]? = some nd ∧ Represents hn nd b
  lookup : Indexes g.ids g.reverseIds
  graph : g.graph = (tree num.parents).map (List.map Nat.cast)

/-- The triples of the nodes from `head` on. -/
def pending (nodes : List Node) (head : ℕ) : List Triple :=
  (nodes.zipIdx.drop head).map fun p => ⟨(p.2 : ℕ), p.1.iPuzzle, p.1.jPuzzle⟩

/-- The loop of `creatGraph` has stored `num`, and its queue holds the nodes from `head` on. -/
structure Building (hn : 0 < n) (num : Discovery (Board n)) (head : ℕ) (s : Graph.Build) :
    Prop where
  stores : Stores hn num s.graph
  queue : s.queue = pending s.graph.reverseIds head

theorem pending_concat {nodes : List Node} {head : ℕ} (h : head ≤ nodes.length) (nd : Node) :
    pending (nodes ++ [nd]) head =
      pending nodes head ++ [⟨(nodes.length : ℕ), nd.iPuzzle, nd.jPuzzle⟩] := by
  rw [pending, List.zipIdx_append, List.drop_append_of_le_length (by simpa using h),
    List.map_append]
  simp [pending]

theorem pending_eq_cons {nodes : List Node} {head : ℕ} {nd : Node} (h : nodes[head]? = some nd) :
    pending nodes head = ⟨(head : ℕ), nd.iPuzzle, nd.jPuzzle⟩ :: pending nodes (head + 1) := by
  obtain ⟨hlt, rfl⟩ := List.getElem?_eq_some_iff.mp h
  rw [pending, List.drop_eq_getElem_cons (by simpa using hlt)]
  simp [pending]

theorem pending_ids (nodes : List Node) (head : ℕ) :
    (pending nodes head).map Triple.first =
      (List.range' head (nodes.length - head)).map Nat.cast := by
  rw [pending, List.map_map, show Triple.first ∘ (fun p : Node × ℕ =>
    (⟨(p.2 : ℕ), p.1.iPuzzle, p.1.jPuzzle⟩ : Triple)) = Nat.cast ∘ Prod.snd from rfl,
    ← List.map_map, List.map_drop, List.zipIdx_map_snd, List.drop_range']
  simp

theorem indexes_nil : Indexes ∅ [] := by
  intro bs k
  constructor
  · intro h
    cases h
  · rintro ⟨v, -, nd, hnd, -⟩
    cases hnd

/-- A new node is found at the end. -/
theorem Indexes.insert {ids : HashMap BitSet Int} {nodes : List Node} (h : Indexes ids nodes)
    {nd : Node} (hFresh : nd.taquinBS ∉ ids) :
    Indexes (ids.insert nd.taquinBS nodes.length) (nodes ++ [nd]) := by
  intro bs k
  by_cases hbs : bs = nd.taquinBS
  · subst hbs
    rw [AList.lookup_insert, Option.some.injEq]
    constructor
    · rintro rfl
      exact ⟨nodes.length, rfl, nd, by simp, rfl⟩
    · rintro ⟨v, rfl, nd', hnd', heq⟩
      rcases getElem?_concat hnd' with hv | ⟨rfl, rfl⟩
      · refine absurd ?_ hFresh
        rw [← AList.lookup_isSome, (h _ v).mpr ⟨v, rfl, nd', hv, heq⟩]
        rfl
      · rfl
  · rw [AList.lookup_insert_ne hbs, h]
    constructor
    · rintro ⟨v, rfl, nd', hnd', heq⟩
      exact ⟨v, rfl, nd', getElem?_of_isPrefix (List.prefix_append _ _) hnd', heq⟩
    · rintro ⟨v, rfl, nd', hnd', rfl⟩
      rcases getElem?_concat hnd' with hv | ⟨rfl, rfl⟩
      · exact ⟨v, rfl, nd', hv, rfl⟩
      · exact absurd rfl hbs

namespace Stores

variable {hn : 0 < n} {num : Discovery (Board n)} {g : Graph}

theorem exists_board (h : Stores hn num g) {v : ℕ} {nd : Node} (hv : g.reverseIds[v]? = some nd) :
    ∃ b, num.seen[v]? = some b ∧ Represents hn nd b := by
  have hlt := (List.getElem?_eq_some_iff.mp hv).1
  rw [h.length] at hlt
  obtain ⟨nd', hnd', hRep⟩ := h.node v _ (List.getElem?_eq_getElem hlt)
  obtain rfl : nd = nd' := Option.some.inj (hv.symm.trans hnd')
  exact ⟨_, List.getElem?_eq_getElem hlt, hRep⟩

/-- A packed board is found under the number of the board that it shows. -/
theorem lookup_iff (h : Stores hn num g) {bs : BitSet} {b : Board n}
    (hbs : Shows (width n) (width n * (n * n) : ℕ) bs b) {k : ℤ} :
    g.ids.lookup bs = some k ↔ ∃ v : ℕ, k = v ∧ num.seen[v]? = some b := by
  rw [h.lookup]
  constructor
  · rintro ⟨v, rfl, nd, hnd, rfl⟩
    obtain ⟨b', hb', hRep⟩ := h.exists_board hnd
    exact ⟨v, rfl, by rw [hb', hbs.unique hRep.board]⟩
  · rintro ⟨v, rfl, hv⟩
    obtain ⟨nd, hnd, hRep⟩ := h.node v b hv
    exact ⟨v, rfl, nd, hnd, hRep.board.bits_unique hbs⟩

theorem mem_ids_iff (h : Stores hn num g) {bs : BitSet} {b : Board n}
    (hbs : Shows (width n) (width n * (n * n) : ℕ) bs b) : bs ∈ g.ids ↔ b ∈ num.seen := by
  rw [← AList.lookup_isSome, Option.isSome_iff_exists, List.mem_iff_getElem?]
  constructor
  · rintro ⟨k, hk⟩
    obtain ⟨v, -, hv⟩ := (h.lookup_iff hbs).mp hk
    exact ⟨v, hv⟩
  · rintro ⟨v, hv⟩
    exact ⟨v, (h.lookup_iff hbs).mpr ⟨v, rfl, hv⟩⟩

end Stores

/-! ### One direction -/

section TryMove

variable {hn : 0 < n} {num : Discovery (Board n)} {g : Graph}

theorem addNode_eq {bs : BitSet} (h : bs ∉ g.ids) (i j : ℤ) :
    g.addNode (some bs) i j =
      ({ g with
          ids := g.ids.insert bs g.reverseIds.length
          reverseIds := g.reverseIds ++ [⟨bs, i, j⟩]
          graph := g.graph ++ [[]] }, true) := by
  simp [Graph.addNode, h]

theorem getId_eq_ok {bs : BitSet} {k : ℤ} : g.getId bs = .ok k ↔ g.ids.lookup bs = some k := by
  unfold Graph.getId
  split <;> simp_all

/-- The edge of discovery between the node just added and its discoverer `k`. -/
theorem addEdge_eq {parents : List ℕ} {k : ℕ} (hk : k < parents.length)
    (hLt : ∀ p ∈ parents, p < parents.length)
    (hGraph : g.graph = (tree parents).map (List.map Nat.cast) ++ [[]]) :
    g.addEdge parents.length k =
      ({ g with graph := (tree (parents ++ [k])).map (List.map Nat.cast) }, .ok true) := by
  have hNew : listGet g.graph (parents.length : ℕ) = .ok [] := by
    rw [listGet_natCast, hGraph, List.getElem?_append_right (by simp [length_tree])]
    simp [length_tree]
  have hOld : ((tree parents).map (List.map Nat.cast) ++ [[(k : ℤ)]])[k]? =
      some ((neighbours parents k).map Nat.cast) := by
    rw [List.getElem?_append_left (by simpa [length_tree] using hk), List.getElem?_map,
      getElem?_tree hk]
    rfl
  have hSet : g.graph.set parents.length ([] ++ [(k : ℤ)]) =
      (tree parents).map (List.map Nat.cast) ++ [[(k : ℤ)]] := by
    rw [hGraph, List.set_append_right _ _ (by simp [length_tree])]
    simp [length_tree]
  simp only [Graph.addEdge, hNew, Int.toNat_natCast, hSet, listGet_natCast.mpr hOld]
  rw [tree_concat hk hLt, List.map_set, List.map_append]
  simp

/-- A new board gets the next number, and an edge to its discoverer. -/
theorem Stores.insert (h : Stores hn num g) (k : ℕ) {nd : Node} {b : Board n}
    (hRep : Represents hn nd b) (hb : b ∉ num.seen) :
    Stores hn (num.visit k b)
      { g with
          ids := g.ids.insert nd.taquinBS num.seen.length
          reverseIds := g.reverseIds ++ [nd]
          graph := (tree (num.parents ++ [k])).map (List.map Nat.cast) } := by
  have hFresh : nd.taquinBS ∉ g.ids := fun hmem => hb ((h.mem_ids_iff hRep.board).mp hmem)
  rw [Discovery.visit, if_neg hb]
  constructor
  case side => exact h.side
  case nbits => exact h.nbits
  case sizeBS => exact h.sizeBS
  case length => simp [h.length]
  case node =>
    intro v c hv
    rcases getElem?_concat hv with hv | ⟨rfl, rfl⟩
    · obtain ⟨nd', hnd', hRep'⟩ := h.node v c hv
      exact ⟨nd', getElem?_of_isPrefix (List.prefix_append _ _) hnd', hRep'⟩
    · exact ⟨nd, by simp [← h.length], hRep⟩
  case lookup =>
    simp only [← h.length]
    exact h.lookup.insert hFresh
  case graph => rfl

variable {head k : ℕ} {s : Graph.Build} {b : Board n} {d : ℤ × ℤ}

theorem validationPos_iff (h : s.graph.n = n) (c : Cell n) (d : ℤ × ℤ) :
    (Graph.validationPos (c.1 + d.1) 0 (s.graph.n - 1) &&
      Graph.validationPos (c.2 + d.2) 0 (s.graph.n - 1)) = (shift c d).isSome := by
  cases hShift : shift c d with
  | none =>
    have := shift_eq_none.mp hShift
    rw [Option.isSome_none, ← Bool.not_eq_true, Bool.and_eq_true]
    simp only [Graph.validationPos, Bool.and_eq_true, decide_eq_true_eq, h]
    omega
  | some c' =>
    obtain ⟨h1, h2⟩ := shift_eq_some.mp hShift
    have := c'.1.isLt
    have := c'.2.isLt
    rw [Option.isSome_some, Bool.and_eq_true]
    simp only [Graph.validationPos, Bool.and_eq_true, decide_eq_true_eq, h]
    omega

/-- A direction that leads off the board does nothing. -/
theorem tryMove_of_none (h : Building hn num head s) (hShift : shift (blank hn b) d = none) :
    Graph.tryMove k (blank hn b).1 (blank hn b).2 s d = .ok s := by
  have := validationPos_iff h.stores.side (blank hn b) d
  rw [hShift] at this
  simp only [Graph.tryMove, this, Option.isSome_none, Bool.false_eq_true, if_false]
  rfl

/-- A direction that leads to a cell visits the board that has its blank there. -/
theorem tryMove_of_some (h : Building hn num head s)
    (hExp : Explored (next hn) (goal n) k (k + 1) num) (hHead : head ≤ num.seen.length)
    (hb : num.seen[k]? = some b) {c' : Cell n} (hShift : shift (blank hn b) d = some c') :
    ∃ s', Graph.tryMove k (blank hn b).1 (blank hn b).2 s d = .ok s' ∧
      Building hn (num.visit k (slide b (blank hn b) c')) head s' := by
  obtain ⟨nd, hnd, hRep⟩ := h.stores.node k b hb
  obtain ⟨h1, h2⟩ := shift_eq_some.mp hShift
  obtain ⟨move, bs1, bs2, hGet, hSet1, hSet2, hShows⟩ :=
    hRep.board.slide (isBlank_blank hn b) c'
  have hValid := validationPos_iff h.stores.side (blank hn b) d
  simp only [hShift, Option.isSome_some, h.stores.side, h1, h2] at hValid
  have hMem := h.stores.mem_ids_iff hShows
  have hLt : ∀ p ∈ num.parents, p < num.parents.length := by
    intro p hp
    obtain ⟨v, hv⟩ := List.getElem?_of_mem hp
    have hvLt := (List.getElem?_eq_some_iff.mp hv).1
    rcases Nat.eq_zero_or_pos v with rfl | hPos
    · rw [hExp.parent_zero] at hv
      cases hv
      exact hvLt
    · have := (hExp.parent_lt v p hPos hv).1
      omega
  simp only [Graph.tryMove, hValid, if_true, listGet_natCast.mpr hnd, Result.ok_bind,
    h.stores.side, h.stores.nbits, h.stores.sizeBS, h1, h2, hGet, hSet1, hSet2]
  by_cases hSeen : slide b (blank hn b) c' ∈ num.seen
  · rw [if_neg (by simpa [hMem] using hSeen), Discovery.visit, if_pos hSeen]
    exact ⟨s, rfl, h⟩
  · rw [if_pos (by simpa [hMem] using hSeen), addNode_eq (by simpa [hMem] using hSeen)]
    have hk : k < num.seen.length := (List.getElem?_eq_some_iff.mp hb).1
    have hRep' : Represents hn ⟨bs2, (c'.1 : ℕ), (c'.2 : ℕ)⟩ (slide b (blank hn b) c') :=
      ⟨hShows, by rw [blank_slide], by rw [blank_slide]⟩
    have hEdge := addEdge_eq (g := { s.graph with
      ids := s.graph.ids.insert bs2 num.seen.length
      reverseIds := s.graph.reverseIds ++ [⟨bs2, (c'.1 : ℕ), (c'.2 : ℕ)⟩]
      graph := s.graph.graph ++ [[]] }) (k := k) (by rw [hExp.length]; exact hk) hLt
      (by rw [h.stores.graph])
    simp only [hExp.length] at hEdge
    simp only [Graph.getId, AList.lookup_insert, Result.ok_bind, h.stores.length, hEdge,
      Result.pure_eq]
    refine ⟨_, rfl, h.stores.insert k hRep' hSeen, ?_⟩
    rw [h.queue, pending_concat (by rw [h.stores.length]; exact hHead), h.stores.length]

end TryMove

/-! ### The loop -/

section Loop

variable {hn : 0 < n} {num : Discovery (Board n)} {head k : ℕ} {s : Graph.Build} {b : Board n}

theorem foldlM_tryMove (ds : List (ℤ × ℤ)) (hds : ∀ d ∈ ds, d ∈ Graph.directions)
    (h : Building hn num head s) (hExp : Explored (next hn) (goal n) k (k + 1) num)
    (hHead : head ≤ num.seen.length) (hb : num.seen[k]? = some b) :
    ∃ s', ds.foldlM (Graph.tryMove k (blank hn b).1 (blank hn b).2) s = .ok s' ∧
      Building hn ((ds.filterMap fun d => (shift (blank hn b) d).map (slide b (blank hn b))).foldl
        (Discovery.visit k) num) head s' := by
  induction ds generalizing num s with
  | nil => exact ⟨s, rfl, h⟩
  | cons d ds ih =>
    have hRest : ∀ d' ∈ ds, d' ∈ Graph.directions := fun d' hd' => hds d' (by simp [hd'])
    rw [List.foldlM_cons, List.filterMap_cons]
    cases hShift : shift (blank hn b) d with
    | none =>
      rw [tryMove_of_none h hShift]
      exact ih hRest h hExp hHead hb
    | some c' =>
      obtain ⟨s1, hTry, h1⟩ := tryMove_of_some h hExp hHead hb hShift
      have hMove : slide b (blank hn b) c' ∈ next hn b :=
        List.mem_filterMap.mpr ⟨d, hds d (by simp), by rw [hShift]; rfl⟩
      have hSeen := (visit_isPrefix k num (slide b (blank hn b) c')).1
      rw [hTry]
      exact ih hRest h1 (hExp.visit hb hMove) (hHead.trans hSeen.length_le)
        (getElem?_of_isPrefix hSeen hb)

/-- The head of the queue is the next node to expand. -/
theorem Building.queue_cons (h : Building hn num k s) (hb : num.seen[k]? = some b) :
    ∃ nd, Represents hn nd b ∧
      s.queue = ⟨(k : ℕ), nd.iPuzzle, nd.jPuzzle⟩ :: pending s.graph.reverseIds (k + 1) := by
  obtain ⟨nd, hnd, hRep⟩ := h.stores.node k b hb
  exact ⟨nd, hRep, h.queue.trans (pending_eq_cons hnd)⟩

/-- One iteration of the loop expands the node at the head of the queue. -/
theorem expandNode_eq (h : Building hn num k s) (hExp : Explored (next hn) (goal n) k k num)
    (hk : k < num.seen.length) :
    ∃ s', Graph.expandNode s = .ok s' ∧ Building hn (num.expand (next hn) k) (k + 1) s' := by
  have hb := List.getElem?_eq_getElem hk
  obtain ⟨nd, hRep, hQueue⟩ := h.queue_cons hb
  rw [hRep.row, hRep.column] at hQueue
  rw [Graph.expandNode, hQueue]
  simp only
  rw [Discovery.expand, hb]
  exact foldlM_tryMove Graph.directions (fun d hd => hd)
    (s := { s with queue := pending s.graph.reverseIds (k + 1) })
    ⟨h.stores, rfl⟩ (hExp.mono_bound (Nat.le_succ k)) hk hb

theorem nonempty_iff (h : Building hn num k s) :
    Graph.nonempty s = true ↔ k < num.seen.length := by
  have hLen : s.queue.length = num.seen.length - k := by
    rw [h.queue, ← List.length_map Triple.first, pending_ids]
    simp [h.stores.length]
  rw [Graph.nonempty, Bool.not_eq_true', List.isEmpty_eq_false_iff_exists_mem,
    ← List.length_pos_iff_exists_mem, hLen]
  omega

/-- Wherever the loop is, the nodes before the head of the queue have been expanded. -/
theorem building_of_iterates {j : ℕ} {t : Graph.Build}
    (hIter : Iterates Graph.nonempty Graph.expandNode j s t)
    (h : Building hn (numbering (next hn) (goal n) k) k s) :
    Building hn (numbering (next hn) (goal n) (k + j)) (k + j) t := by
  induction hIter generalizing k with
  | refl s => exact h
  | @step j s s' t hCond hBody _ ih =>
    obtain ⟨s1, hs1, h1⟩ :=
      expandNode_eq h (explored_numbering _ _ k) ((nonempty_iff h).mp hCond)
    obtain rfl : s' = s1 := Except.ok.inj (hBody.symm.trans hs1)
    rw [← Nat.succ_add_eq_add_succ]
    exact ih h1

/-- The loop gets as far as there are nodes to expand. -/
theorem exists_iterates_building (h : Building hn (numbering (next hn) (goal n) 0) 0 s)
    (hk : ∀ j < k, j < (numbering (next hn) (goal n) j).seen.length) :
    ∃ t, Iterates Graph.nonempty Graph.expandNode k s t ∧
      Building hn (numbering (next hn) (goal n) k) k t := by
  induction k with
  | zero => exact ⟨s, .refl s, h⟩
  | succ k ih =>
    obtain ⟨t, hIter, ht⟩ := ih fun j hj => hk j (by omega)
    have hLt := hk k (Nat.lt_succ_self k)
    obtain ⟨t', hStep, ht'⟩ := expandNode_eq ht (explored_numbering _ _ k) hLt
    exact ⟨t', hIter.trans (.step ((nonempty_iff ht).mpr hLt) hStep (.refl t')), ht'⟩

theorem startBuild_eq (hn : 0 < n) {t : Taquin} (hNbits : t.nbits = width n)
    (hSize : t.sizeBS = (width n * (n * n) : ℕ)) (hi : t.iPuzzle = n - 1) (hj : t.jPuzzle = n - 1)
    (hShows : Shows (width n) (width n * (n * n) : ℕ) t.taquinBS (goal n)) :
    ∃ s, Graph.startBuild (Graph.empty n t) = .ok s ∧
      Building hn (numbering (next hn) (goal n) 0) 0 s := by
  have hCorner := (isBlank_goal_iff _).mp (isBlank_blank hn (goal n))
  have h1 := (blank hn (goal n)).1.isLt
  have h2 := (blank hn (goal n)).2.isLt
  unfold cornerDist at hCorner
  have hRep : Represents hn ⟨t.taquinBS, t.iPuzzle, t.jPuzzle⟩ (goal n) :=
    ⟨hShows, by simp only [hi]; omega, by simp only [hj]; omega⟩
  have hNil : t.taquinBS ∉ (Graph.empty n t).ids := AList.notMem_empty _
  simp only [Graph.startBuild, show (Graph.empty n t).taquin = t from rfl, addNode_eq hNil]
  rw [getId_eq_ok.mpr (AList.lookup_insert _)]
  have hIndexes := indexes_nil.insert
    (show (⟨t.taquinBS, t.iPuzzle, t.jPuzzle⟩ : Node).taquinBS ∉ ∅ from hNil)
  refine ⟨_, rfl, ⟨⟨rfl, hNbits, hSize, rfl, ?_, hIndexes, rfl⟩, rfl⟩⟩
  intro v b hv
  obtain ⟨rfl, rfl⟩ : v = 0 ∧ goal n = b := by
    have := (List.getElem?_eq_some_iff.mp hv).1
    simp only [numbering, Discovery.start, List.length_singleton] at this hv
    obtain rfl : v = 0 := by omega
    exact ⟨rfl, Option.some.inj hv⟩
  exact ⟨_, rfl, hRep⟩

/-- `creatGraph` returns, and stores a complete numbering of the boards. -/
theorem creatGraph_eq (hn : 0 < n) (hn' : n ≤ 256) :
    ∃ t s u k, Taquin.new n = .ok t ∧ Graph.startBuild (Graph.empty n t) = .ok s ∧
      Building hn (numbering (next hn) (goal n) 0) 0 s ∧
      Iterates Graph.nonempty Graph.expandNode k s u ∧ Graph.nonempty u = false ∧
      (Graph.empty n t).creatGraph = .ok u.graph ∧
      (numbering (next hn) (goal n) k).seen.length = k ∧
      Stores hn (numbering (next hn) (goal n) k) u.graph := by
  obtain ⟨t, hNew, hNbits, hSize, hi, hj, hShows⟩ := new_eq hn hn'
  obtain ⟨s, hStart, hs⟩ := startBuild_eq hn hNbits hSize hi hj hShows
  obtain ⟨k, hkCard, hkLen, hk⟩ := exists_last (next hn) (goal n)
  obtain ⟨u, hIter, hu⟩ := exists_iterates_building hs hk
  have hStop : Graph.nonempty u = false := by
    rw [← Bool.not_eq_true, nonempty_iff hu, hkLen]
    exact lt_irrefl k
  refine ⟨t, s, u, k, hNew, hStart, hs, hIter, hStop, ?_, hkLen, hu.stores⟩
  have hFuel : k ≤ ((Graph.empty n t).n * (Graph.empty n t).n).toNat.factorial := by
    rw [Fintype.card_equiv finProdFinEquiv, Fintype.card_prod, Fintype.card_fin] at hkCard
    rw [show ((Graph.empty n t).n * (Graph.empty n t).n).toNat = n * n by
      simp only [Graph.empty, ← Nat.cast_mul, Int.toNat_natCast]]
    exact hkCard
  rw [Graph.creatGraph, hStart, Result.ok_bind, hIter.whileLoop_eq hStop hFuel]
  rfl

end Loop

/-! ### What is explored -/

theorem next_eq (hn : 0 < n) : (fun x y => y ∈ next hn x) = Move (n := n) := by
  funext b b'
  exact propext mem_next

theorem mem_seen_iff_solvable {hn : 0 < n} {num : Discovery (Board n)}
    (hComplete : Complete (next hn) (goal n) num) {b : Board n} : b ∈ num.seen ↔ Solvable b := by
  rw [hComplete.mem_seen_iff, next_eq]
  exact Iff.rfl

/-- The blank's cell is the only one that decodes to 0. -/
theorem Represents.blank_iff {hn : 0 < n} {nd : Node} {b : Board n} (h : Represents hn nd b)
    (i j : Fin n) :
    Utils.getValueBSAt (i : ℕ) (j : ℕ) n (width n) (width n * (n * n) : ℕ) nd.taquinBS = .ok 0 ↔
      nd.iPuzzle = (i : ℕ) ∧ nd.jPuzzle = (j : ℕ) := by
  rw [h.board.2 i j, h.row, h.column]
  constructor
  · intro h0
    have hBlank : IsBlank b (i, j) := by simpa [IsBlank] using h0
    rw [blank_eq hBlank]
    exact ⟨rfl, rfl⟩
  · rintro ⟨h1, h2⟩
    have hCell : blank hn b = (i, j) :=
      Prod.ext (Fin.ext (by simp only; omega)) (Fin.ext (by simp only; omega))
    have hZero : (b (i, j) : ℕ) = 0 := hCell ▸ isBlank_blank hn b
    rw [hZero]
    rfl

namespace Stores

variable {hn : 0 < n} {num : Discovery (Board n)} {g : Graph}

/-- A known packed board is the one of the node under its number. -/
theorem exists_node (h : Stores hn num g) {bs : BitSet} (hMem : bs ∈ g.ids) :
    ∃ (v : ℕ) (nd : Node), g.getId bs = .ok v ∧ g.getBitSet v = .ok nd ∧ nd.taquinBS = bs := by
  obtain ⟨k, hk⟩ := Option.isSome_iff_exists.mp (AList.lookup_isSome.mpr hMem)
  obtain ⟨v, rfl, nd, hnd, hbs⟩ := (h.lookup bs k).mp hk
  exact ⟨v, nd, getId_eq_ok.mpr hk, listGet_natCast.mpr hnd, hbs⟩

theorem mem_ids_iff_solvable (h : Stores hn num g) (hComplete : Complete (next hn) (goal n) num)
    (bs : BitSet) :
    bs ∈ g.ids ↔ ∃ b : Board n, Solvable b ∧ Shows g.getNbits g.getSizeBS bs b := by
  rw [Graph.getNbits, Graph.getSizeBS, h.nbits, h.sizeBS]
  constructor
  · intro hMem
    obtain ⟨v, nd, -, hnd, rfl⟩ := h.exists_node hMem
    obtain ⟨b, hb, hRep⟩ := h.exists_board (listGet_natCast.mp hnd)
    exact ⟨b, (mem_seen_iff_solvable hComplete).mp (List.mem_of_getElem? hb), hRep.board⟩
  · rintro ⟨b, hb, hShows⟩
    exact (h.mem_ids_iff hShows).mpr ((mem_seen_iff_solvable hComplete).mpr hb)

/-- A number and its node find each other. -/
theorem getId_getBitSet (h : Stores hn num g) {v : ℕ} {nd : Node} (hv : g.getBitSet v = .ok nd) :
    g.getId nd.taquinBS = .ok v := by
  rw [Graph.getBitSet, listGet_natCast] at hv
  exact getId_eq_ok.mpr ((h.lookup _ v).mpr ⟨v, rfl, nd, hv, rfl⟩)

theorem length_graph (h : Stores hn num g) (hComplete : Complete (next hn) (goal n) num) :
    g.graph.length = num.seen.length := by
  rw [h.graph, List.length_map, length_tree, hComplete.length]

theorem graph_ne_nil (h : Stores hn num g) (hComplete : Complete (next hn) (goal n) num) :
    g.graph ≠ [] := by
  rw [← List.length_pos_iff, h.length_graph hComplete]
  exact (List.getElem?_eq_some_iff.mp hComplete.seen_zero).1

end Stores

/-- `creatGraph` finds every board that moves reach from the goal, once, and no other board. -/
theorem creatGraph_exact (n : ℕ) (hn : 1 ≤ n) (hn' : n ≤ 256) :
    ∃ t g, Taquin.new n = .ok t ∧ (Graph.empty n t).creatGraph = .ok g ∧
      g.graph.length = g.reverseIds.length ∧
      (∀ bs, bs ∈ g.ids ↔ ∃ b : Board n, Solvable b ∧ Shows g.getNbits g.getSizeBS bs b) ∧
      (∀ b : Board n, Solvable b → ∃! bs, Shows g.getNbits g.getSizeBS bs b) ∧
      Set.BijOn g.getId {bs | bs ∈ g.ids}
        {r | ∃ k : ℕ, k < g.reverseIds.length ∧ r = .ok (k : ℤ)} ∧
      (∀ k : ℕ, k < g.reverseIds.length →
        ∃ nd, g.getBitSet k = .ok nd ∧ g.getId nd.taquinBS = .ok k ∧
          ∀ i j : Fin n, Utils.getValueBSAt (i : ℕ) (j : ℕ) n g.getNbits g.getSizeBS nd.taquinBS
            = .ok 0 ↔ nd.iPuzzle = (i : ℕ) ∧ nd.jPuzzle = (j : ℕ)) := by
  obtain ⟨t, s, u, k, hNew, -, -, -, -, hCreate, hk, hg⟩ := creatGraph_eq hn hn'
  generalize u.graph = g at hCreate hg
  have hComplete := complete_of_length hk
  have hIds := hg.mem_ids_iff_solvable hComplete
  have hNode : ∀ v : ℕ, v < g.reverseIds.length → ∃ nd, g.getBitSet v = .ok nd := fun v hv =>
    ⟨_, listGet_of_lt hv⟩
  refine ⟨t, g, hNew, hCreate, (hg.length_graph hComplete).trans hg.length.symm, hIds, ?unique,
    ⟨?mapsTo, ?injOn, ?surjOn⟩, ?inverse⟩
  case unique =>
    intro b hb
    obtain ⟨v, hv⟩ := List.getElem?_of_mem ((mem_seen_iff_solvable hComplete).mpr hb)
    obtain ⟨nd, -, hRep⟩ := hg.node v b hv
    rw [Graph.getNbits, Graph.getSizeBS, hg.nbits, hg.sizeBS]
    exact ⟨nd.taquinBS, hRep.board, fun bs hbs => hbs.bits_unique hRep.board⟩
  case mapsTo =>
    intro bs hbs
    obtain ⟨v, nd, hId, hnd, -⟩ := hg.exists_node hbs
    exact ⟨v, (List.getElem?_eq_some_iff.mp (listGet_natCast.mp hnd)).1, hId⟩
  case injOn =>
    intro bs hbs bs' hbs' hEq
    obtain ⟨v, nd, hId, hnd, rfl⟩ := hg.exists_node hbs
    obtain ⟨w, nd', hId', hnd', rfl⟩ := hg.exists_node hbs'
    rw [← Except.ok.inj (hId.symm.trans (hEq.trans hId'))] at hnd'
    rw [Except.ok.inj (hnd.symm.trans hnd')]
  case surjOn =>
    rintro r ⟨v, hv, rfl⟩
    obtain ⟨nd, hnd⟩ := hNode v hv
    have hId := hg.getId_getBitSet hnd
    refine ⟨nd.taquinBS, ?_, hId⟩
    show nd.taquinBS ∈ g.ids
    rw [← AList.lookup_isSome, getId_eq_ok.mp hId]
    rfl
  case inverse =>
    intro v hv
    obtain ⟨nd, hnd⟩ := hNode v hv
    refine ⟨nd, hnd, hg.getId_getBitSet hnd, fun i j => ?_⟩
    obtain ⟨b, -, hRep⟩ := hg.exists_board (listGet_natCast.mp hnd)
    rw [Graph.getNbits, Graph.getSizeBS, hg.nbits, hg.sizeBS]
    exact hRep.blank_iff i j

theorem creatGraph_exact_two :
    ∃ t g, Taquin.new (2 : ℕ) = .ok t ∧ (Graph.empty (2 : ℕ) t).creatGraph = .ok g ∧
      g.graph.length = g.reverseIds.length ∧
      ∀ bs, bs ∈ g.ids ↔ ∃ b : Board 2, Solvable b ∧ Shows g.getNbits g.getSizeBS bs b := by
  obtain ⟨t, g, hNew, hCreate, hLength, hIds, -⟩ := creatGraph_exact 2 (by decide) (by decide)
  exact ⟨t, g, hNew, hCreate, hLength, hIds⟩

end TaquinSolver
