import TaquinSolver.Packed

/-! The loop of `nBits` in the arithmetic of Java.  The mask is a `char`, so it never exceeds 65535,
while `n * n` is an `int`.  Up to `n = 256` the loop stops at the least sufficient width, and from
257 on it never stops (`nBits_terminates_iff`). -/

namespace TaquinSolver

open Java Sliding

variable {n : ℕ}

theorem tooNarrow_eq (hn : n * n < 2 ^ 31) (s : ℤ × ℤ) :
    Taquin.tooNarrow n s = decide (s.2 < (n : ℤ) * n - 1) := by
  have hSquare : (n : ℤ) * n < 2 ^ 31 := by exact_mod_cast hn
  have hNonneg : (0 : ℤ) ≤ (n : ℤ) * n := by positivity
  rw [Taquin.tooNarrow, toInt_of_range (by omega) hSquare, toInt_of_range (by omega) (by omega)]

/-- The 32 rounds of `nBits` are rounds of the loop in `int` arithmetic. -/
theorem nBits_eq_whileLoop (hn : n * n < 2 ^ 31) :
    Taquin.nBits n =
      whileLoop (Taquin.tooNarrow n) Taquin.widen 32 (0, Taquin.maskOf 0) := by
  have hRounds : ∀ (fuel : ℕ) (s : ℤ × ℤ), 0 ≤ s.1 → s.1 + fuel < 2 ^ 31 →
      whileLoop (fun s : ℤ × ℤ => decide (s.2 < (n : ℤ) * n - 1))
        (fun s => .ok (s.1 + 1, Taquin.maskOf (s.1 + 1))) fuel s =
      whileLoop (Taquin.tooNarrow n) Taquin.widen fuel s := by
    intro fuel
    induction fuel with
    | zero =>
      intro s _ _
      rw [whileLoop, whileLoop, tooNarrow_eq hn]
    | succ fuel ih =>
      intro s h0 hLt
      push_cast at hLt
      rw [whileLoop, whileLoop, tooNarrow_eq hn, Result.ok_bind, ih _ (by omega) (by omega),
        Taquin.widen, Result.ok_bind, toInt_of_range (by omega) (by omega)]
  exact hRounds 32 _ le_rfl (by decide)

/-- The loop stops at the least sufficient width. -/
theorem iterates_widen (hn : n ≤ 256) :
    Iterates (Taquin.tooNarrow n) Taquin.widen (width n) (0, Taquin.maskOf 0)
        ((width n : ℤ), 2 ^ width n - 1) ∧
      Taquin.tooNarrow n ((width n : ℤ), 2 ^ width n - 1) = false := by
  have hSquare : n * n < 2 ^ 31 := (Nat.mul_le_mul hn hn).trans_lt (by decide)
  have hWidth := width_le hn
  refine iterates_widths _ _ (fun j => ?_) fun j hj => ?_
  · rw [tooNarrow_eq hSquare]
    exact decide_eq_decide.mpr (two_pow_sub_one_lt_iff n j)
  · rw [Taquin.widen, ← Nat.cast_succ, toInt_of_range (by omega) (by omega), maskOf_eq (by omega)]

theorem maskOf_lt (nbits : ℤ) : Taquin.maskOf nbits < 65536 :=
  Int.emod_lt_of_pos _ (by decide)

/-- No mask reaches `n * n - 1` when the side is 257 or more. -/
theorem nBits_endless (hn : 257 ≤ n) (hSquare : n * n < 2 ^ 31) (fuel : ℕ) :
    whileLoop (Taquin.tooNarrow n) Taquin.widen fuel (0, Taquin.maskOf 0) = .error .outOfFuel := by
  refine whileLoop_endless (P := fun s => s.2 < 65536) (fun s hs => ⟨?_, ?_⟩) (maskOf_lt 0) fuel
  · have hLarge : (257 : ℤ) * 257 ≤ (n : ℤ) * n := by exact_mod_cast Nat.mul_le_mul hn hn
    rw [tooNarrow_eq hSquare, decide_eq_true_eq]
    omega
  · exact ⟨_, rfl, maskOf_lt _⟩

theorem new_endless (hn : 257 ≤ n) (hSquare : n * n < 2 ^ 31) :
    Taquin.new n = .error .outOfFuel := by
  rw [Taquin.new, nBits_eq_whileLoop hSquare, nBits_endless hn hSquare]
  rfl

/-- The cells of the constructor's board decode to the numbers of the goal. -/
theorem new_cells (hn : 1 ≤ n) (hn' : n ≤ 256) :
    ∃ t, Taquin.new n = .ok t ∧ t.nbits = width n ∧
      ∀ p : ℕ, p < n * n → t.getValueBS p = .ok (((p + 1) % (n * n) : ℕ) : ℤ) := by
  obtain ⟨t, hNew, hNbits, hSize, -, -, hShows⟩ := new_eq hn hn'
  refine ⟨t, hNew, hNbits, fun p hp => ?_⟩
  obtain ⟨c, rfl⟩ := exists_index hp
  rw [(taquin_eq_utils hNbits hSize hp 0).1, getValueBS_eq _ _ hp, (shows_iff.mp hShows).2 c,
    goal_index]

/-- The loop of `nBits` stops, with the least sufficient width and then the goal, exactly up to the
side 256. -/
theorem nBits_terminates_iff (n : ℕ) (hn : 1 ≤ n) (hSquare : n * n < 2 ^ 31) :
    (∃ (k nbits : ℕ) (maskBits : ℤ) (t : Taquin),
      Iterates (Taquin.tooNarrow n) Taquin.widen k (0, Taquin.maskOf 0) (nbits, maskBits) ∧
      Taquin.tooNarrow n (nbits, maskBits) = false ∧
      IsLeast {b : ℕ | n * n ≤ 2 ^ b} nbits ∧ (∀ x < n * n, x < 2 ^ nbits) ∧
      Taquin.new n = .ok t ∧ t.nbits = nbits ∧
      ∀ p : ℕ, p < n * n → t.getValueBS p = .ok (((p + 1) % (n * n) : ℕ) : ℤ)) ↔ n ≤ 256 := by
  constructor
  · rintro ⟨k, nbits, maskBits, -, hIter, hStop, -⟩
    by_contra hLarge
    have hRun := hIter.whileLoop_eq hStop (le_refl k)
    rw [nBits_endless (by omega) hSquare] at hRun
    cases hRun
  · intro hn'
    obtain ⟨hIter, hStop⟩ := iterates_widen hn'
    obtain ⟨t, hNew, hNbits, hCells⟩ := new_cells hn hn'
    refine ⟨width n, width n, _, t, hIter, hStop, ⟨square_le_two_pow n, fun b hb => ?_⟩,
      fun x hx => hx.trans_le (square_le_two_pow n), hNew, hNbits, hCells⟩
    exact (Nat.clog_le_iff_le_pow (by decide)).mpr hb

theorem nBits_terminates_iff_three :
    ∃ (nbits : ℕ) (t : Taquin), IsLeast {b : ℕ | 3 * 3 ≤ 2 ^ b} nbits ∧
      Taquin.new (3 : ℕ) = .ok t ∧ t.nbits = nbits := by
  obtain ⟨_, nbits, _, t, -, -, hLeast, -, hNew, hNbits, -⟩ :=
    (nBits_terminates_iff 3 (by decide) (by decide)).mpr (by decide)
  exact ⟨nbits, t, hLeast, hNew, hNbits⟩

/-- The square of 257 is an `int`, and no number of iterations is enough for it. -/
theorem nBits_endless_257 :
    (257 : ℕ) * 257 < 2 ^ 31 ∧ Taquin.new (257 : ℕ) = .error .outOfFuel ∧
      ∀ fuel, whileLoop (Taquin.tooNarrow (257 : ℕ)) Taquin.widen fuel (0, Taquin.maskOf 0) =
        .error .outOfFuel :=
  ⟨by decide, new_endless (le_refl 257) (by decide), nBits_endless (le_refl 257) (by decide)⟩

end TaquinSolver
