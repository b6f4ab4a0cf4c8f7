import Mathlib.Combinatorics.SimpleGraph.Acyclic

/-! Graphs in which every vertex but one has exactly one smaller neighbour.  Smaller neighbours lead
down to the exception, and each edge is the one from its larger end to that end's smaller neighbour,
so such a graph is a tree (`isTree_of_down`). -/

namespace Search

variable {V : Type} [LinearOrder V] {T : SimpleGraph V} {a : V} {down : V → V}

theorem connected_of_down [Finite V] (h : ∀ v u, (u < v ∧ T.Adj v u) ↔ v ≠ a ∧ u = down v) :
    T.Connected := by
  have : Nonempty V := ⟨a⟩
  have hDown : ∀ v, T.Reachable v a := by
    intro v
    induction v using WellFoundedLT.induction with
    | _ v ih =>
      by_cases hv : v = a
      · rw [hv]
      · obtain ⟨hLt, hAdj⟩ := (h v (down v)).mpr ⟨hv, rfl⟩
        exact hAdj.reachable.trans (ih _ hLt)
  exact ⟨fun u v => (hDown u).trans (hDown v).symm⟩

/-- The edge from a vertex to its smaller neighbour. -/
def downEdge (h : ∀ v u, (u < v ∧ T.Adj v u) ↔ v ≠ a ∧ u = down v) (v : {v // v ≠ a}) :
    T.edgeSet :=
  ⟨s(v.1, down v.1), ((h v.1 (down v.1)).mpr ⟨v.2, rfl⟩).2⟩

theorem downEdge_bijective (h : ∀ v u, (u < v ∧ T.Adj v u) ↔ v ≠ a ∧ u = down v) :
    Function.Bijective (downEdge h) := by
  constructor
  · intro v w hEq
    rcases Sym2.eq_iff.mp (congrArg Subtype.val hEq) with ⟨hvw, -⟩ | ⟨hvw, hwv⟩
    · exact Subtype.ext hvw
    · have h1 := ((h v.1 (down v.1)).mpr ⟨v.2, rfl⟩).1
      have h2 := ((h w.1 (down w.1)).mpr ⟨w.2, rfl⟩).1
      rw [hwv] at h1
      rw [← hvw] at h2
      exact absurd h1 h2.asymm
  · rintro ⟨e, he⟩
    induction e using Sym2.inductionOn with
    | _ x y =>
      wlog hLt : y < x generalizing x y
      · obtain ⟨v, hv⟩ := this y x he.symm (lt_of_le_of_ne (le_of_not_gt hLt) he.ne)
        exact ⟨v, by rw [hv]; exact Subtype.ext Sym2.eq_swap⟩
      · obtain ⟨hx, rfl⟩ := (h x y).mp ⟨hLt, he⟩
        exact ⟨⟨x, hx⟩, rfl⟩

/-- Such a graph is a tree, with one edge for each vertex but `a`. -/
theorem isTree_of_down [Finite V] (h : ∀ v u, (u < v ∧ T.Adj v u) ↔ v ≠ a ∧ u = down v) :
    T.IsTree ∧ Nat.card T.edgeSet + 1 = Nat.card V := by
  have hCard : Nat.card T.edgeSet + 1 = Nat.card V := by
    classical
    rw [← Nat.card_congr (Equiv.ofBijective _ (downEdge_bijective h)), ← Finite.card_option]
    exact Nat.card_congr (Equiv.optionSubtypeNe a)
  exact ⟨SimpleGraph.isTree_iff_connected_and_card.mpr ⟨connected_of_down h, hCard⟩, hCard⟩

end Search
