import Mathlib.Logic.Equiv.Fin.Rotate
import Mathlib.Tactic.Group
import TaquinSolver.Search.Distance
import TaquinSolver.Sliding.Walk

/-! The sliding puzzle on an `n` by `n` grid.  A board is a bijection from cells to the numbers
below `n * n`, of which 0 is the blank, and a move exchanges the blank with an adjacent cell.  A
board of side at least 2 can be moved to the goal if and only if its sign relative to the goal is
the parity of the way of its blank to the goal's corner (`solvable_iff`). -/

namespace Sliding

open Equiv Equiv.Perm

abbrev Cell (n : ℕ) := Fin n × Fin n

/-- A board: the number in each cell. -/
abbrev Board (n : ℕ) := Cell n ≃ Fin (n * n)

variable {n : ℕ}

/-- The number of rows and columns between two cells. -/
def taxicab (c c' : Cell n) : ℕ :=
  ((c.1 : ℤ) - c'.1).natAbs + ((c.2 : ℤ) - c'.2).natAbs

def Adjacent (c c' : Cell n) : Prop := taxicab c c' = 1

instance (c c' : Cell n) : Decidable (Adjacent c c') := inferInstanceAs (Decidable (_ = _))

def IsBlank (b : Board n) (c : Cell n) : Prop := (b c).val = 0

/-- The board `b` with the contents of `c` and `c'` exchanged. -/
def slide (b : Board n) (c c' : Cell n) : Board n := (swap c c').trans b

/-- One legal move: the blank changes places with an adjacent cell. -/
def Move (b b' : Board n) : Prop :=
  ∃ c c', IsBlank b c ∧ Adjacent c c' ∧ b' = slide b c c'

/-- The blank visits the cells of a list, by one legal move each. -/
inductive Moves : Board n → List (Cell n) → Board n → Prop
  | nil (b : Board n) : Moves b [] b
  | cons {b b' : Board n} {c c' : Cell n} {cs : List (Cell n)} : IsBlank b c → Adjacent c c' →
      Moves (slide b c c') cs b' → Moves b (c' :: cs) b'

/-- The goal: 1, 2, ..., n * n - 1, 0 row by row. -/
def goal (n : ℕ) : Board n := finProdFinEquiv.trans (finRotate (n * n))

/-- `b` comes from the goal by legal moves. -/
def Solvable (b : Board n) : Prop := Relation.ReflTransGen Move (goal n) b

/-- The way from `c` to the corner of the goal's blank, in rows and columns. -/
def cornerDist (c : Cell n) : ℕ := (n - 1 - c.1) + (n - 1 - c.2)

/-- The permutation of the cells that takes each number's cell in `b` to its cell in the goal. -/
def relative (b : Board n) : Perm (Cell n) := b.trans (goal n).symm

/-! ### Moves -/

theorem Adjacent.symm {c c' : Cell n} (h : Adjacent c c') : Adjacent c' c := by
  unfold Adjacent taxicab at *
  omega

theorem Adjacent.ne {c c' : Cell n} (h : Adjacent c c') : c ≠ c' := by
  rintro rfl
  simp [Adjacent, taxicab] at h

theorem IsBlank.unique {b : Board n} {c c' : Cell n} (h : IsBlank b c) (h' : IsBlank b c') :
    c = c' :=
  b.injective (Fin.ext (h.trans h'.symm))

theorem exists_isBlank (hn : 0 < n) (b : Board n) : ∃ c, IsBlank b c :=
  ⟨b.symm ⟨0, Nat.mul_pos hn hn⟩, by simp [IsBlank]⟩

@[simp] theorem slide_apply (b : Board n) (c c' v : Cell n) :
    slide b c c' v = b (swap c c' v) := rfl

theorem slide_slide (b : Board n) (c c' : Cell n) : slide (slide b c c') c' c = b := by
  ext v
  simp [swap_comm c' c]

/-- The blank is at its new cell after a move. -/
theorem IsBlank.slide {b : Board n} {c : Cell n} (h : IsBlank b c) (c' : Cell n) :
    IsBlank (slide b c c') c' := by
  simpa [IsBlank] using h

theorem Move.symm {b b' : Board n} (h : Move b b') : Move b' b := by
  obtain ⟨c, c', hBlank, hAdj, rfl⟩ := h
  exact ⟨c', c, hBlank.slide c', hAdj.symm, (slide_slide b c c').symm⟩

theorem reachable_symm {b b' : Board n} (h : Relation.ReflTransGen Move b b') :
    Relation.ReflTransGen Move b' b := by
  induction h with
  | refl => exact .refl
  | tail _ hMove ih => exact .head hMove.symm ih

theorem goal_apply (i j : Fin n) : (goal n (i, j)).val = (n * i + j + 1) % (n * n) := by
  rw [goal, Equiv.trans_apply, finRotate_apply, Fin.val_add, Fin.val_one', Nat.add_mod_mod,
    finProdFinEquiv_apply_val, Nat.add_comm (j : ℕ)]

theorem isBlank_goal_iff (c : Cell n) : IsBlank (goal n) c ↔ cornerDist c = 0 := by
  obtain ⟨i, j⟩ := c
  have hi := i.isLt
  have hj := j.isLt
  rw [IsBlank, goal_apply, cornerDist]
  constructor
  · intro h
    have hdvd := Nat.dvd_of_mod_eq_zero h
    have hle : n * i + j + 1 ≤ n * n := by
      have := Nat.mul_le_mul_left n (show (i : ℕ) + 1 ≤ n by omega)
      rw [Nat.mul_add] at this
      omega
    have heq := Nat.le_antisymm hle (Nat.le_of_dvd (by omega) hdvd)
    have hi' : (i : ℕ) = n - 1 := by
      by_contra hne
      have := Nat.mul_le_mul_left n (show (i : ℕ) + 2 ≤ n by omega)
      rw [Nat.mul_add] at this
      omega
    simp only
    rw [hi', show n - 1 = n - 1 by rfl] at heq
    obtain ⟨m, rfl⟩ : ∃ m, n = m + 1 := ⟨n - 1, by omega⟩
    have hexp : (m + 1) * (m + 1) = (m + 1) * m + (m + 1) := Nat.mul_succ _ _
    simp only [Nat.add_sub_cancel] at heq
    omega
  · intro h
    simp only at h
    obtain ⟨m, rfl⟩ : ∃ m, n = m + 1 := ⟨n - 1, by omega⟩
    have h1 : (i : ℕ) = m := by omega
    have h2 : (j : ℕ) = m := by omega
    rw [h1, h2, show (m + 1) * m + m + 1 = (m + 1) * (m + 1) by ring, Nat.mod_self]

/-! ### Parity -/

theorem relative_slide (b : Board n) (c c' : Cell n) :
    relative (slide b c c') = relative b * swap c c' := rfl

/-- A move changes the sign and the parity of the blank's way to the corner. -/
theorem Move.sign_eq {b b' : Board n} {c c' : Cell n} (h : Move b b') (hc : IsBlank b c)
    (hc' : IsBlank b' c') :
    sign (relative b') * (-1) ^ cornerDist c' = sign (relative b) * (-1) ^ cornerDist c := by
  obtain ⟨u, v, hu, hAdj, rfl⟩ := h
  rw [hc.unique hu, hc'.unique (hu.slide v)]
  have hodd : (-1 : ℤˣ) ^ cornerDist v = -(-1) ^ cornerDist u := by
    have : cornerDist v = cornerDist u + 1 ∨ cornerDist u = cornerDist v + 1 := by
      have := u.1.isLt
      have := u.2.isLt
      have := v.1.isLt
      have := v.2.isLt
      unfold Adjacent taxicab at hAdj
      unfold cornerDist
      omega
    rcases this with h | h
    · rw [h, pow_succ, mul_neg_one]
    · rw [h, pow_succ, mul_neg_one, neg_neg]
  rw [relative_slide, Perm.sign_mul, sign_swap hAdj.ne, hodd]
  simp

theorem sign_eq_of_reachable {b b' : Board n} (h : Relation.ReflTransGen Move b b')
    {c c' : Cell n} (hc : IsBlank b c) (hc' : IsBlank b' c') :
    sign (relative b') * (-1) ^ cornerDist c' = sign (relative b) * (-1) ^ cornerDist c := by
  induction h generalizing c' with
  | refl => rw [hc.unique hc']
  | tail _ hMove ih =>
    obtain ⟨u, v, hu, -, -⟩ := id hMove
    rw [hMove.sign_eq hu hc', ih hu]

theorem relative_goal : relative (goal n) = 1 := Equiv.self_trans_symm _

theorem Solvable.sign_eq {b : Board n} (h : Solvable b) {c : Cell n} (hc : IsBlank b c) :
    sign (relative b) = (-1) ^ cornerDist c := by
  obtain ⟨u, hu⟩ := exists_isBlank c.1.pos (goal n)
  have key := sign_eq_of_reachable h hu hc
  rw [(isBlank_goal_iff u).mp hu, relative_goal, Perm.sign_one, pow_zero, mul_one,
    mul_eq_one_iff_eq_inv, Int.units_inv_eq_self] at key
  exact key

/-! ### The puzzle theorem -/

/-- The contents after a walk of the blank are reached by moves. -/
theorem reachable_of_slide {b : Board n} {c c' : Cell n} {π : Perm (Cell n)} (hc : IsBlank b c)
    (h : Slide Adjacent c π c') :
    Relation.ReflTransGen Move b (π.trans b) ∧ IsBlank (π.trans b) c' := by
  induction h generalizing b with
  | refl => exact ⟨.refl, hc⟩
  | @step u v w π hAdj _ ih =>
    obtain ⟨hReach, hBlank⟩ := ih (hc.slide v)
    exact ⟨.head ⟨u, v, hc, hAdj, rfl⟩ hReach, hBlank⟩

section Paths

variable {A : Set (Cell n)}

theorem row_path (i : Fin n) {j j' : ℕ} (hj : j < n) (hj' : j' < n) (hle : j ≤ j')
    (hA : ∀ k (hk : k < n), j ≤ k → (i, ⟨k, hk⟩) ∉ A) :
    Relation.ReflTransGen (StepOff Adjacent A) (i, ⟨j', hj'⟩) (i, ⟨j, hj⟩) := by
  induction j', hle using Nat.le_induction with
  | base => exact .refl
  | succ k hk ih =>
    refine .head ⟨?_, hA _ _ (by omega), hA k (by omega) hk⟩ (ih (by omega))
    simp only [Adjacent, taxicab]
    omega

theorem col_path (j : Fin n) {i i' : ℕ} (hi : i < n) (hi' : i' < n) (hle : i ≤ i')
    (hA : ∀ k (hk : k < n), i ≤ k → (⟨k, hk⟩, j) ∉ A) :
    Relation.ReflTransGen (StepOff Adjacent A) (⟨i', hi'⟩, j) (⟨i, hi⟩, j) := by
  induction i', hle using Nat.le_induction with
  | base => exact .refl
  | succ k hk ih =>
    refine .head ⟨?_, hA _ _ (by omega), hA k (by omega) hk⟩ (ih (by omega))
    simp only [Adjacent, taxicab]
    omega

/-- The goal's corner. -/
def corner (hn : 0 < n) : Cell n := (⟨n - 1, by omega⟩, ⟨n - 1, by omega⟩)

/-- The blank walks from the corner up the last column and then left along a row. -/
theorem path_up_left (hn : 0 < n) {i j : ℕ} (hi : i < n) (hj : j < n)
    (hRow : ∀ k (hk : k < n), j ≤ k → (⟨i, hi⟩, ⟨k, hk⟩) ∉ A)
    (hCol : ∀ k (hk : k < n), i ≤ k → (⟨k, hk⟩, ⟨n - 1, by omega⟩) ∉ A) :
    Relation.ReflTransGen (StepOff Adjacent A) (corner hn) (⟨i, hi⟩, ⟨j, hj⟩) :=
  (col_path ⟨n - 1, by omega⟩ hi (by omega) (by omega) hCol).trans
    (row_path ⟨i, hi⟩ hj (by omega) (by omega) hRow)

/-- The blank walks from the corner left along the last row and then up a column. -/
theorem path_left_up (hn : 0 < n) {i j : ℕ} (hi : i < n) (hj : j < n)
    (hRow : ∀ k (hk : k < n), j ≤ k → (⟨n - 1, by omega⟩, ⟨k, hk⟩) ∉ A)
    (hCol : ∀ k (hk : k < n), i ≤ k → (⟨k, hk⟩, ⟨j, hj⟩) ∉ A) :
    Relation.ReflTransGen (StepOff Adjacent A) (corner hn) (⟨i, hi⟩, ⟨j, hj⟩) :=
  (row_path ⟨n - 1, by omega⟩ hj (by omega) (by omega) hRow).trans
    (col_path ⟨j, hj⟩ hi (by omega) (by omega) hCol)

end Paths

/-- The closed walks of the blank at the corner. -/
abbrev cornerLoops (hn : 0 < n) : Subgroup (Perm (Cell n)) :=
  loops Adjacent (fun _ _ h => Adjacent.symm h) (corner hn)

section Squares

variable (hn : 0 < n) {i j : ℕ} (hi : i + 1 < n) (hj : j + 1 < n)

/-- From below and from the cell, the cell to the right. -/
theorem cycle_right : cycle (⟨i + 1, hi⟩, ⟨j, by omega⟩) (⟨i, by omega⟩, ⟨j, by omega⟩)
    (⟨i, by omega⟩, ⟨j + 1, hj⟩) ∈ cornerLoops hn := by
  refine cycle_mem_loops (s := (⟨i + 1, hi⟩, ⟨j + 1, hj⟩)) ?_ ?_ ?_ ?_ ?_
    (path_up_left hn hi hj ?_ ?_)
  all_goals simp [Adjacent, taxicab] <;> omega

/-- From the right and from the cell, the cell below. -/
theorem cycle_below : cycle (⟨i, by omega⟩, ⟨j + 1, hj⟩) (⟨i, by omega⟩, ⟨j, by omega⟩)
    (⟨i + 1, hi⟩, ⟨j, by omega⟩) ∈ cornerLoops hn := by
  refine cycle_mem_loops (s := (⟨i + 1, hi⟩, ⟨j + 1, hj⟩)) ?_ ?_ ?_ ?_ ?_
    (path_up_left hn hi hj ?_ ?_)
  all_goals simp [Adjacent, taxicab] <;> omega

/-- From the cell and from the right, the cell below the right one, above the last row. -/
theorem cycle_below_right (hi' : i + 1 < n - 1) :
    cycle (⟨i, by omega⟩, ⟨j, by omega⟩) (⟨i, by omega⟩, ⟨j + 1, hj⟩)
      (⟨i + 1, hi⟩, ⟨j + 1, hj⟩) ∈ cornerLoops hn := by
  refine cycle_mem_loops (s := (⟨i + 1, hi⟩, ⟨j, by omega⟩)) ?_ ?_ ?_ ?_ ?_
    (path_left_up hn hi (by omega) ?_ ?_)
  all_goals simp [Adjacent, taxicab] <;> omega

end Squares

section Joined

variable (hn : 2 ≤ n)

/-- The base cells, (0, 0) and (0, 1), join `c` in the closed walks at the corner. -/
def CornerJoined (c : Cell n) : Prop :=
  Joined (cornerLoops (show 0 < n by omega)) (⟨0, by omega⟩, ⟨0, by omega⟩)
    (⟨0, by omega⟩, ⟨1, by omega⟩) c

theorem CornerJoined.step {p q x : Cell n} (hp : CornerJoined hn p) (hq : CornerJoined hn q)
    (hpq : p ≠ q) (h : cycle p q x ∈ cornerLoops (show 0 < n by omega)) : CornerJoined hn x :=
  Joined.step (by simp) hp hq hpq h

theorem cornerJoined_zero {j : ℕ} (hj : j < n) :
    CornerJoined hn (⟨0, by omega⟩, ⟨j, hj⟩) ∧
      ((1, j) ≠ (n - 1, n - 1) → CornerJoined hn (⟨1, by omega⟩, ⟨j, hj⟩)) := by
  induction j with
  | zero =>
    have h0 : CornerJoined hn (⟨0, by omega⟩, ⟨0, by omega⟩) := .inl rfl
    have h1 : CornerJoined hn (⟨0, by omega⟩, ⟨1, by omega⟩) := .inr (.inl rfl)
    exact ⟨h0, fun _ => h1.step hn h0 (by simp) (cycle_below (by omega) (by omega) (by omega))⟩
  | succ j ih =>
    obtain ⟨h0, h1⟩ := ih (by omega)
    have hRight : CornerJoined hn (⟨0, by omega⟩, ⟨j + 1, hj⟩) :=
      (h1 (by simp; omega)).step hn h0 (by simp)
        (cycle_right (by omega) (by omega) (by omega))
    refine ⟨hRight, fun hne => ?_⟩
    have hRows : 0 + 1 < n - 1 := by
      simp only [ne_eq, Prod.mk.injEq, not_and] at hne
      omega
    exact h0.step hn hRight (by simp) (cycle_below_right (by omega) (by omega) (by omega) hRows)

/-- Every cell but the corner is joined, row after row. -/
theorem cornerJoined {i j : ℕ} (hi : i < n) (hj : j < n) (hne : (i, j) ≠ (n - 1, n - 1)) :
    CornerJoined hn (⟨i, hi⟩, ⟨j, hj⟩) := by
  induction i generalizing j with
  | zero => exact (cornerJoined_zero hn hj).1
  | succ i ih =>
    have hAbove : ∀ {k : ℕ} (hk : k < n), CornerJoined hn (⟨i, by omega⟩, ⟨k, hk⟩) := fun hk =>
      ih (by omega) hk (by simp; omega)
    by_cases hLast : j + 1 < n
    · exact (hAbove hLast).step hn (hAbove hj) (by simp)
        (cycle_below (by omega) hi hLast)
    · obtain ⟨k, rfl⟩ : ∃ k, j = k + 1 := ⟨j - 1, by omega⟩
      have hRows : i + 1 < n - 1 := by
        simp only [ne_eq, Prod.mk.injEq, not_and] at hne
        omega
      exact (hAbove (show k < n by omega)).step hn (hAbove hj) (by simp)
        (cycle_below_right (by omega) hi hj hRows)

end Joined

/-- The closed walks at the corner give every even permutation of the other cells. -/
theorem slide_of_sign (hn : 2 ≤ n) {π : Perm (Cell n)}
    (hFix : π (corner (by omega)) = corner (by omega)) (hSign : sign π = 1) :
    Slide Adjacent (corner (by omega)) π (corner (show 0 < n by omega)) := by
  have hAll : HasCycles (cornerLoops (show 0 < n by omega)) {c | c ≠ corner (by omega)} := by
    have hJoined : ∀ c : Cell n, c ≠ corner (by omega) → CornerJoined hn c := by
      rintro ⟨⟨i, hi⟩, ⟨j, hj⟩⟩ hc
      exact cornerJoined hn hi hj fun h => hc (by simpa [corner] using h)
    intro a ha b hb c hc
    exact hasCycles_joined (by simp) a (hJoined a ha) b (hJoined b hb) c (hJoined c hc)
  exact mem_of_sign hAll hFix hSign

/-- A board of side at least 2 can be moved to the goal if and only if its sign relative to the goal
is the parity of the way of its blank to the goal's corner. -/
theorem solvable_iff (hn : 2 ≤ n) {b : Board n} {c : Cell n} (hc : IsBlank b c) :
    Solvable b ↔ sign (relative b) = (-1) ^ cornerDist c := by
  refine ⟨fun h => h.sign_eq hc, fun hSign => ?_⟩
  -- walk the blank to the corner, and compare with the goal there
  obtain ⟨i, j⟩ := c
  have hPath :
      Relation.ReflTransGen (StepOff Adjacent (∅ : Set (Cell n))) (corner (by omega)) (i, j) :=
    path_up_left (by omega) i.isLt j.isLt (fun _ _ _ => id) fun _ _ _ => id
  obtain ⟨π, hπ, -⟩ := Slide.exists_of_path hPath
  obtain ⟨hReach, hBlank⟩ := reachable_of_slide hc (hπ.symm fun _ _ h => h.symm)
  have hSign' := sign_eq_of_reachable hReach hc hBlank
  have hCorner : cornerDist (corner (n := n) (by omega)) = 0 := by simp [cornerDist, corner]
  rw [hSign, hCorner, pow_zero, mul_one, ← mul_pow, neg_one_mul, neg_neg, one_pow] at hSign'
  have hFix : relative (π⁻¹.trans b) (corner (by omega)) = corner (by omega) := by
    rw [relative, Equiv.trans_apply, Equiv.symm_apply_eq]
    exact Fin.ext (hBlank.trans ((isBlank_goal_iff _).mpr hCorner).symm)
  have hGoal := (reachable_of_slide ((isBlank_goal_iff _).mpr hCorner)
    (slide_of_sign hn hFix hSign')).1
  have hBack : (relative (π⁻¹.trans b)).trans (goal n) = π⁻¹.trans b := by
    ext v
    simp [relative]
  rw [hBack] at hGoal
  exact hGoal.trans (reachable_symm hReach)

end Sliding
