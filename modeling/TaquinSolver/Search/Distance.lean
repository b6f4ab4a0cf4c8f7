import Mathlib.Order.Lattice.Nat
import Mathlib.Logic.Relation

/-! Walks of a relation counted by their length, and the least length.  `IsDist r a b d` says that
`d` is the least number of `r`-steps from `a` to `b`.  A labelling that is 0 at the source and
grows by at most 1 along each step is a lower bound (`Steps.le_label`), so a distance is proved by a
walk and a labelling. -/

namespace Search

variable {α : Type}

/-- `Steps r k a b`: exactly `k` steps of `r` lead from `a` to `b`. -/
inductive Steps (r : α → α → Prop) : ℕ → α → α → Prop
  | refl (a : α) : Steps r 0 a a
  | tail {k : ℕ} {a b c : α} : Steps r k a b → r b c → Steps r (k + 1) a c

/-- The least number of steps from `a` to `b` is `d`. -/
def IsDist (r : α → α → Prop) (a b : α) (d : ℕ) : Prop := IsLeast {k | Steps r k a b} d

namespace Steps

variable {r : α → α → Prop} {j k : ℕ} {a b c : α}

theorem single (h : r a b) : Steps r 1 a b := .tail (.refl a) h

theorem trans (h : Steps r j a b) (h' : Steps r k b c) : Steps r (j + k) a c := by
  induction h' with
  | refl => exact h
  | tail _ hStep ih => exact .tail (ih h) hStep

theorem head (h : r a b) (h' : Steps r k b c) : Steps r (k + 1) a c := by
  rw [Nat.add_comm]
  exact (single h).trans h'

theorem symm (hr : ∀ a b, r a b → r b a) (h : Steps r k a b) : Steps r k b a := by
  induction h with
  | refl => exact .refl _
  | tail _ hStep ih => exact ih.head (hr _ _ hStep)

theorem eq_of_zero (h : Steps r 0 a b) : a = b := by
  cases h
  rfl

/-- A label that grows by at most 1 along each step grows by at most `k` along `k` steps. -/
theorem le_label (label : α → ℕ) (hLabel : ∀ a b, r a b → label b ≤ label a + 1)
    (h : Steps r k a b) : label b ≤ label a + k := by
  induction h with
  | refl => exact le_refl _
  | tail _ hStep ih =>
    have := hLabel _ _ hStep
    omega

/-- A predicate closed under `r` that holds at the start of a walk holds at its end. -/
theorem invariant {P : α → Prop} (hr : ∀ a b, P a → r a b → P b) (h : Steps r k a b)
    (ha : P a) : P b := by
  induction h with
  | refl => exact ha
  | tail _ hStep ih => exact hr _ _ (ih ha) hStep

end Steps

theorem reachable_iff {r : α → α → Prop} {a b : α} :
    Relation.ReflTransGen r a b ↔ ∃ k, Steps r k a b := by
  constructor
  · intro h
    induction h with
    | refl => exact ⟨0, .refl a⟩
    | tail _ hStep ih =>
      obtain ⟨k, hk⟩ := ih
      exact ⟨k + 1, .tail hk hStep⟩
  · rintro ⟨k, h⟩
    induction h with
    | refl => exact .refl
    | tail _ hStep ih => exact ih.tail hStep

namespace IsDist

variable {r : α → α → Prop} {a b : α} {d e : ℕ}

theorem unique (h : IsDist r a b d) (h' : IsDist r a b e) : d = e := IsLeast.unique h h'

theorem symm (hr : ∀ a b, r a b → r b a) (h : IsDist r a b d) : IsDist r b a d :=
  ⟨Steps.symm hr h.1, fun _ hk => h.2 (Steps.symm hr hk)⟩

theorem zero_iff (h : IsDist r a b d) : d = 0 ↔ a = b := by
  constructor
  · rintro rfl
    exact Steps.eq_of_zero h.1
  · rintro rfl
    exact Nat.le_zero.mp (h.2 (Steps.refl a))

/-- The element before the last one of a shortest walk. -/
theorem exists_step (h : IsDist r a b (d + 1)) : ∃ c, IsDist r a c d ∧ r c b := by
  obtain ⟨hSteps, hLeast⟩ := h
  cases hSteps with
  | @tail _ _ c _ hWalk hStep =>
    refine ⟨c, ⟨hWalk, fun k hk => ?_⟩, hStep⟩
    exact Nat.le_of_succ_le_succ (hLeast (.tail hk hStep))

end IsDist

/-- The least number of steps from `a` to `b`, when `b` can be reached. -/
noncomputable def dist (r : α → α → Prop) (a b : α) : ℕ := sInf {k | Steps r k a b}

theorem isDist_dist {r : α → α → Prop} {a b : α} (h : Relation.ReflTransGen r a b) :
    IsDist r a b (dist r a b) :=
  ⟨Nat.sInf_mem (reachable_iff.mp h), fun _ hk => Nat.sInf_le hk⟩

end Search
