import Mathlib.Algebra.Ring.Nat
import TaquinSolver.Search.Bfs
import TaquinSolver.Search.Frontier

/-! The tree of a breadth-first numbering: each element but the start is joined to its parent.  The
walks that follow parents are the shortest ones from the start, in the tree as in the whole graph
(`Explored.tree_isDist`, `Complete.isDist`), and the only element before another one on a shortest
walk of the tree is its parent (`Explored.eq_parent`). -/

namespace Search.Bfs

/-! ### The edges of discovery -/

/-- The parent of `v`, when it is not the start, and the elements that `v` discovered. -/
def neighbours (parents : List ℕ) (v : ℕ) : List ℕ :=
  (if v = 0 then [] else [parents.getD v 0]) ++
    (List.range parents.length).filter fun w => decide (0 < w ∧ parents[w]? = some v)

/-- The edges of discovery, as adjacency lists. -/
def tree (parents : List ℕ) : List (List ℕ) :=
  (List.range parents.length).map (neighbours parents)

theorem length_tree (parents : List ℕ) : (tree parents).length = parents.length := by
  simp [tree]

theorem getElem?_tree {parents : List ℕ} {v : ℕ} (hv : v < parents.length) :
    (tree parents)[v]? = some (neighbours parents v) := by
  simp [tree, hv]

theorem neighbours_concat {parents : List ℕ} {h v : ℕ} (hv : v < parents.length) :
    neighbours (parents ++ [h]) v =
      neighbours parents v ++ (if v = h then [parents.length] else []) := by
  have hOld : ∀ w ∈ List.range parents.length,
      decide (0 < w ∧ (parents ++ [h])[w]? = some v) = decide (0 < w ∧ parents[w]? = some v) := by
    intro w hw
    rw [List.getElem?_append_left (List.mem_range.mp hw)]
  rw [neighbours, neighbours, List.append_assoc, List.length_append, List.length_singleton,
    List.range_succ, List.filter_append, List.filter_congr hOld]
  congr 1
  · simp [List.getD_eq_getElem?_getD, List.getElem?_append_left hv]
  · congr 1
    by_cases hvh : v = h
    · subst hvh
      simp
      omega
    · simp [hvh, Ne.symm hvh]

/-- A newly discovered element and its discoverer become neighbours. -/
theorem tree_concat {parents : List ℕ} {h : ℕ} (hh : h < parents.length)
    (hLt : ∀ p ∈ parents, p < parents.length) :
    tree (parents ++ [h]) =
      ((tree parents ++ [[h]]).set h (neighbours parents h ++ [parents.length])) := by
  apply List.ext_getElem?
  intro v
  rcases Nat.lt_trichotomy v parents.length with hv | rfl | hv
  · rw [getElem?_tree (by simp; omega), neighbours_concat hv, List.getElem?_set]
    by_cases hvh : h = v
    · subst hvh
      simp [length_tree]
      omega
    · rw [if_neg hvh, if_neg (Ne.symm hvh), List.append_nil,
        List.getElem?_append_left (by rwa [length_tree]), getElem?_tree hv]
  · rw [getElem?_tree (by simp), List.getElem?_set, if_neg (by omega)]
    have hNone : (List.range (parents ++ [h]).length).filter
        (fun w => decide (0 < w ∧ (parents ++ [h])[w]? = some parents.length)) = [] := by
      rw [List.filter_eq_nil_iff]
      intro w _ hw
      obtain ⟨-, hw⟩ := of_decide_eq_true hw
      rcases getElem?_concat hw with hw | ⟨-, hw⟩
      · exact absurd (hLt _ (List.mem_of_getElem? hw)) (lt_irrefl _)
      · omega
    rw [neighbours, hNone, if_neg (by omega)]
    simp [length_tree, List.getD_eq_getElem?_getD]
  · rw [List.getElem?_eq_none (by rw [length_tree]; simp; omega),
      List.getElem?_eq_none (by simp [length_tree]; omega)]

theorem sum_set_add {l : List ℕ} {k m : ℕ} (hk : l[k]? = some m) (m' : ℕ) :
    (l.set k m').sum + m = l.sum + m' := by
  induction l generalizing k with
  | nil => cases hk
  | cons a l ih =>
    cases k with
    | zero =>
      obtain rfl : a = m := Option.some.inj hk
      simp only [List.set_cons_zero, List.sum_cons]
      omega
    | succ k =>
      have := ih (k := k) hk
      simp only [List.set_cons_succ, List.sum_cons]
      omega

/-- Every element but the start adds two entries to the lists. -/
theorem sum_length_tree {parents : List ℕ} (hPos : parents ≠ [])
    (hLt : ∀ v p : ℕ, parents[v]? = some p → p ≤ v ∧ (0 < v → p < v)) :
    ((tree parents).map List.length).sum + 2 = 2 * parents.length := by
  induction parents using List.reverseRecOn with
  | nil => exact absurd rfl hPos
  | append_singleton parents h ih =>
    by_cases hNil : parents = []
    · subst hNil
      rfl
    have hOld : ∀ v p : ℕ, parents[v]? = some p → p ≤ v ∧ (0 < v → p < v) := fun v p hp =>
      hLt v p (getElem?_of_isPrefix (List.prefix_append _ _) hp)
    have hBelow : ∀ p ∈ parents, p < parents.length := by
      intro p hp
      obtain ⟨v, hv⟩ := List.getElem?_of_mem hp
      exact (hOld v p hv).1.trans_lt (List.getElem?_eq_some_iff.mp hv).1
    have hh : h < parents.length :=
      (hLt parents.length h (by simp)).2 (List.length_pos_iff.mpr hNil)
    have hSum := ih hNil hOld
    have hGet : ((tree parents ++ [[h]]).map List.length)[h]? =
        some (neighbours parents h).length := by
      rw [List.getElem?_map, List.getElem?_append_left (by rwa [length_tree]), getElem?_tree hh]
      rfl
    have hSet := sum_set_add hGet (neighbours parents h ++ [parents.length]).length
    rw [← List.map_set, ← tree_concat hh hBelow] at hSet
    simp only [List.map_append, List.sum_append, List.map_singleton, List.sum_singleton,
      List.length_append, List.length_singleton] at hSet ⊢
    omega

/-! ### Parents -/

/-- The parent of an element; the start is its own parent. -/
def parent (parents : List ℕ) (v : ℕ) : ℕ := parents.getD v 0

/-- `u` and `v` are joined in the tree. -/
def TreeEdge (parents : List ℕ) (u v : ℕ) : Prop := u < parents.length ∧ v ∈ neighbours parents u

theorem parent_eq {parents : List ℕ} {v p : ℕ} (h : parents[v]? = some p) :
    parent parents v = p := by
  simp [parent, List.getD_eq_getElem?_getD, h]

theorem mem_neighbours_iff {parents : List ℕ} {u v : ℕ} : v ∈ neighbours parents u ↔
    (u ≠ 0 ∧ v = parent parents u) ∨ (0 < v ∧ parents[v]? = some u) := by
  rw [neighbours, List.mem_append, List.mem_filter, decide_eq_true_eq, List.mem_range]
  constructor
  · rintro (h | ⟨-, h⟩)
    · split at h
      · cases h
      · rename_i hu
        exact .inl ⟨hu, List.mem_singleton.mp h⟩
    · exact .inr h
  · rintro (⟨hu, rfl⟩ | ⟨hv, hp⟩)
    · left
      rw [if_neg hu]
      exact List.mem_singleton_self _
    · exact .inr ⟨(List.getElem?_eq_some_iff.mp hp).1, hv, hp⟩

namespace Explored

variable {α : Type} {next : α → List α} {a : α} {head bound : ℕ} {s : Discovery α}

theorem getElem?_parents (h : Explored next a head bound s) {v : ℕ} (hv : v < s.seen.length) :
    s.parents[v]? = some (parent s.parents v) := by
  obtain ⟨p, hp⟩ := h.exists_parent (List.getElem?_eq_getElem hv)
  rw [hp, parent_eq hp]

theorem parent_start (h : Explored next a head bound s) : parent s.parents 0 = 0 :=
  parent_eq h.parent_zero

theorem parent_below (h : Explored next a head bound s) {v : ℕ} (hv : v < s.seen.length) :
    parent s.parents v < s.seen.length := by
  rcases Nat.eq_zero_or_pos v with rfl | hPos
  · rwa [h.parent_start]
  · have := (h.parent_lt v _ hPos (h.getElem?_parents hv)).1
    omega

theorem level_parent (h : Explored next a head bound s) {v : ℕ} (hv : v < s.seen.length) :
    level s.parents (parent s.parents v) = level s.parents v - 1 := by
  rcases Nat.eq_zero_or_pos v with rfl | hPos
  · rw [h.parent_start, level_zero]
  · rw [h.level_eq hPos (h.getElem?_parents hv), Nat.add_sub_cancel]

theorem level_eq_zero (h : Explored next a head bound s) {v : ℕ} (hv : v < s.seen.length) :
    level s.parents v = 0 ↔ v = 0 := by
  constructor
  · intro h0
    by_contra hne
    rw [h.level_eq (Nat.pos_of_ne_zero hne) (h.getElem?_parents hv)] at h0
    omega
  · rintro rfl
    exact level_zero _

/-- The `k`-th ancestor is `k` levels below. -/
theorem level_iterate (h : Explored next a head bound s) {v : ℕ} (hv : v < s.seen.length) (k : ℕ) :
    (parent s.parents)^[k] v < s.seen.length ∧
      level s.parents ((parent s.parents)^[k] v) = level s.parents v - k := by
  induction k with
  | zero => exact ⟨hv, rfl⟩
  | succ k ih =>
    rw [Function.iterate_succ_apply']
    refine ⟨h.parent_below ih.1, ?_⟩
    rw [h.level_parent ih.1, ih.2]
    omega

/-- Parents lead to the start, for the first time after as many steps as the level says. -/
theorem iterate_eq_zero_iff (h : Explored next a head bound s) {v : ℕ} (hv : v < s.seen.length)
    {k : ℕ} : (parent s.parents)^[k] v = 0 ↔ level s.parents v ≤ k := by
  obtain ⟨hLt, hLevel⟩ := h.level_iterate hv k
  rw [← h.level_eq_zero hLt, hLevel]
  omega

theorem treeEdge_level (h : Explored next a head bound s) {u v : ℕ}
    (hEdge : TreeEdge s.parents u v) :
    (v ≠ 0 ∧ u = parent s.parents v ∧ level s.parents v = level s.parents u + 1) ∨
      (u ≠ 0 ∧ v = parent s.parents u ∧ level s.parents u = level s.parents v + 1) := by
  obtain ⟨hu, hMem⟩ := hEdge
  rcases mem_neighbours_iff.mp hMem with ⟨hPos, rfl⟩ | ⟨hPos, hp⟩
  · right
    rw [h.length] at hu
    exact ⟨hPos, rfl, h.level_eq (Nat.pos_of_ne_zero hPos) (h.getElem?_parents hu)⟩
  · exact .inl ⟨Nat.ne_of_gt hPos, (parent_eq hp).symm, h.level_eq hPos hp⟩

/-- Distances in the tree are levels, and the tree reaches every element. -/
theorem tree_isDist (h : Explored next a head bound s) {v : ℕ} (hv : v < s.seen.length) :
    IsDist (TreeEdge s.parents) 0 v (level s.parents v) := by
  constructor
  · induction v using Nat.strong_induction_on with
    | _ v ih =>
      rcases Nat.eq_zero_or_pos v with rfl | hPos
      · rw [level_zero]
        exact .refl 0
      · have hp := h.getElem?_parents hv
        rw [h.level_eq hPos hp]
        refine .tail (ih _ (h.parent_lt v _ hPos hp).1 (h.parent_below hv)) ?_
        exact ⟨h.length ▸ h.parent_below hv, mem_neighbours_iff.mpr (.inr ⟨hPos, hp⟩)⟩
  · intro k hk
    have := Steps.le_label (level s.parents) (fun u w hEdge => by
      rcases h.treeEdge_level hEdge with ⟨-, -, hLevel⟩ | ⟨-, -, hLevel⟩ <;> omega) hk
    rwa [level_zero, Nat.zero_add] at this

/-- What the tree reaches from the start is numbered. -/
theorem lt_of_tree_steps (h : Explored next a head bound s) {k v : ℕ}
    (hSteps : Steps (TreeEdge s.parents) k 0 v) : v < s.seen.length := by
  refine hSteps.invariant (P := fun v => v < s.seen.length) ?_
    (List.getElem?_eq_some_iff.mp h.seen_zero).1
  intro u w hu hEdge
  rcases mem_neighbours_iff.mp hEdge.2 with ⟨-, rfl⟩ | ⟨-, hp⟩
  · exact h.parent_below hu
  · rw [← h.length]
    exact (List.getElem?_eq_some_iff.mp hp).1

/-- Only the parent is before an element on a shortest walk of the tree. -/
theorem eq_parent (h : Explored next a head bound s) {u v : ℕ}
    (hPrec : Precedes (TreeEdge s.parents) 0 u v) : u = parent s.parents v := by
  obtain ⟨hEdge, d, hu, hv⟩ := hPrec
  rcases h.treeEdge_level hEdge with ⟨-, rfl, -⟩ | ⟨-, -, hLevel⟩
  · rfl
  · have h1 := hu.unique (h.tree_isDist (h.lt_of_tree_steps hu.1))
    have h2 := hv.unique (h.tree_isDist (h.lt_of_tree_steps hv.1))
    omega

theorem parent_lt_self (h : Explored next a head bound s) {v : ℕ} (hv : v < s.seen.length)
    (h0 : v ≠ 0) : parent s.parents v < v :=
  (h.parent_lt v _ (Nat.pos_of_ne_zero h0) (h.getElem?_parents hv)).1

/-- The list of an element holds its neighbours once. -/
theorem nodup_neighbours (h : Explored next a head bound s) (v : ℕ) :
    (neighbours s.parents v).Nodup := by
  rw [neighbours, List.nodup_append]
  refine ⟨by split <;> simp, List.nodup_range.filter _, ?_⟩
  intro u hu w hw
  split at hu
  · cases hu
  · rename_i hv
    obtain rfl := List.mem_singleton.mp hu
    obtain ⟨hwLt, hw⟩ := List.mem_filter.mp hw
    obtain ⟨hPos, hwParent⟩ := of_decide_eq_true hw
    have hvw := (h.parent_lt w v hPos hwParent).1
    have hvLt : v < s.seen.length := by
      have := List.mem_range.mp hwLt
      rw [h.length] at this
      omega
    have := h.parent_lt_self hvLt hv
    rw [parent] at this
    omega

theorem treeEdge_iff (h : Explored next a head bound s) {u v : ℕ} (hu : u < s.seen.length) :
    TreeEdge s.parents u v ↔
      (u ≠ 0 ∧ v = parent s.parents u) ∨ (v ≠ 0 ∧ v < s.seen.length ∧ u = parent s.parents v) := by
  rw [TreeEdge, h.length, and_iff_right hu, mem_neighbours_iff]
  refine or_congr Iff.rfl ⟨?_, ?_⟩
  · rintro ⟨hPos, hp⟩
    have hv := (List.getElem?_eq_some_iff.mp hp).1
    exact ⟨Nat.ne_of_gt hPos, h.length ▸ hv, (parent_eq hp).symm⟩
  · rintro ⟨hv, hLt, rfl⟩
    exact ⟨Nat.pos_of_ne_zero hv, h.getElem?_parents hLt⟩

theorem treeEdge_symm (h : Explored next a head bound s) {u v : ℕ}
    (hEdge : TreeEdge s.parents u v) : TreeEdge s.parents v u := by
  have hu : u < s.seen.length := h.length ▸ hEdge.1
  rcases (h.treeEdge_iff hu).mp hEdge with ⟨h0, rfl⟩ | ⟨h0, hv, rfl⟩
  · exact (h.treeEdge_iff (h.parent_below hu)).mpr (.inr ⟨h0, hu, rfl⟩)
  · exact (h.treeEdge_iff hv).mpr (.inl ⟨h0, rfl⟩)

/-- The parent is the only neighbour with a smaller number. -/
theorem treeEdge_smaller (h : Explored next a head bound s) {u v : ℕ} (hv : v < s.seen.length) :
    (u < v ∧ TreeEdge s.parents v u) ↔ v ≠ 0 ∧ u = parent s.parents v := by
  constructor
  · rintro ⟨hLt, hEdge⟩
    rcases (h.treeEdge_iff hv).mp hEdge with hParent | ⟨h0, hu, rfl⟩
    · exact hParent
    · have := h.parent_lt_self hu h0
      omega
  · rintro ⟨h0, rfl⟩
    exact ⟨h.parent_lt_self hv h0, (h.treeEdge_iff hv).mpr (.inl ⟨h0, rfl⟩)⟩

end Explored

end Search.Bfs
