import Mathlib.Data.Nat.Log
import TaquinSolver.Sliding.Grid
import TaquinSolver.Solve.Utils

/-! Packed boards are arrays.  With `N` cells of `w` bits, cell `p` holds `cellValue w N bs p`: the
loops of `getValueBS` and `setValueBS` read and replace that value, and the values determine a bit
set that has no bit beyond the cells.  `Shows` relates a packed board to a board of the puzzle, and
`Shows.slide` says that the clone, read, write, write of a move shows the moved board. -/

namespace TaquinSolver

open Java Sliding

/-- The lowest bit of cell `p`. -/
def low (w N p : ℕ) : ℕ := (N - 1 - p) * w

def cellValue (w N : ℕ) (bs : BitSet) (p : ℕ) : ℕ := (bs.bits >>> low w N p) % 2 ^ w

theorem cellValue_lt (w N : ℕ) (bs : BitSet) (p : ℕ) : cellValue w N bs p < 2 ^ w :=
  Nat.mod_lt _ (by positivity)

/-- No bit is set at or above `size`. -/
def Bounded (size : ℕ) (bs : BitSet) : Prop := ∀ q, size ≤ q → bs.bits.testBit q = false

theorem bounded_iff {size : ℕ} {bs : BitSet} :
    (∀ q : ℕ, (size : ℤ) ≤ q → bs.get q = .ok false) ↔ Bounded size bs := by
  simp [Bounded]

theorem bounded_empty (size : ℕ) : Bounded size .empty := fun q _ => BitSet.testBit_empty q

section Cells

variable {w N p q : ℕ} {bs : BitSet}

/-- The highest bit of a cell, where the loops start. -/
theorem start_eq (w : ℕ) (hp : p < N) :
    ((w * N : ℕ) : ℤ) - p * w - 1 = (low w N p : ℤ) + w - 1 := by
  obtain ⟨m, rfl⟩ : ∃ m, N = p + 1 + m := ⟨N - (p + 1), by omega⟩
  rw [low, show p + 1 + m - 1 - p = m by omega]
  push_cast
  ring

theorem mem_cell_iff (hw : 0 < w) {x : ℕ} :
    (low w N p ≤ x ∧ x < low w N p + w) ↔ x / w = N - 1 - p := by
  rw [low, Nat.div_eq_iff hw]
  constructor
  · rintro ⟨h1, h2⟩
    omega
  · rintro ⟨h1, h2⟩
    omega

theorem testBit_cellValue {k : ℕ} : (cellValue w N bs p).testBit k =
    (decide (k < w) && bs.bits.testBit (low w N p + k)) := by
  rw [cellValue, Nat.testBit_mod_two_pow, Nat.testBit_shiftRight]

/-- Bit sets within the cells that agree on every cell are equal. -/
theorem eq_of_cellValue {bs' : BitSet} (hb : Bounded (w * N) bs) (hb' : Bounded (w * N) bs')
    (h : ∀ p < N, cellValue w N bs p = cellValue w N bs' p) : bs = bs' := by
  ext x
  by_cases hx : w * N ≤ x
  · rw [hb x hx, hb' x hx]
  have hw : 0 < w := by
    rcases Nat.eq_zero_or_pos w with rfl | hw
    · omega
    · exact hw
  obtain ⟨d, hd⟩ : ∃ d, x / w = d := ⟨_, rfl⟩
  have hdN : d < N := hd ▸ Nat.div_lt_of_lt_mul (by omega)
  have hp : N - 1 - d < N := by omega
  obtain ⟨h1, h2⟩ := (mem_cell_iff (N := N) (p := N - 1 - d) hw (x := x)).mpr (by omega)
  have hBit := congrArg (fun v => v.testBit (x - low w N (N - 1 - d))) (h (N - 1 - d) hp)
  simp only [testBit_cellValue, show x - low w N (N - 1 - d) < w by omega, decide_true,
    Bool.true_and, show low w N (N - 1 - d) + (x - low w N (N - 1 - d)) = x by omega] at hBit
  exact hBit

/-! ### Reading -/

theorem readBits_eq (bs : BitSet) (lo k value : ℕ) :
    Utils.readBits bs k (lo + k - 1) value = .ok (value ||| (bs.bits >>> lo) % 2 ^ k) := by
  induction k generalizing value with
  | zero => simp [Utils.readBits, Nat.mod_one]
  | succ k ih =>
    rw [Utils.readBits, show (lo : ℤ) + (k + 1 : ℕ) - 1 = ((lo + k : ℕ) : ℤ) by push_cast; ring,
      BitSet.get_natCast, Result.ok_bind,
      show ((lo + k : ℕ) : ℤ) - 1 = lo + k - 1 by push_cast; ring, ih, Nat.lor_assoc]
    congr 2
    apply Nat.eq_of_testBit_eq
    intro x
    simp only [Nat.testBit_or, Nat.testBit_mod_two_pow, Nat.testBit_shiftRight]
    rcases Nat.lt_trichotomy x k with hx | rfl | hx
    · have : ((if bs.bits.testBit (lo + k) = true then 1 else 0) <<< k).testBit x = false := by
        rw [Nat.testBit_shiftLeft]
        simp [Nat.not_le.mpr hx]
      simp [this, hx, show x < k + 1 by omega]
    · rw [Nat.testBit_shiftLeft]
      cases bs.bits.testBit (lo + x) <;> simp
    · rw [Nat.testBit_shiftLeft]
      have : ((if bs.bits.testBit (lo + k) = true then 1 else 0) : ℕ).testBit (x - k) = false := by
        have := Nat.one_lt_two_pow (show x - k ≠ 0 by omega)
        apply Nat.testBit_lt_two_pow
        split <;> omega
      simp [this, show ¬x < k by omega, show ¬x < k + 1 by omega]

theorem getValueBS_eq (w : ℕ) (bs : BitSet) (hp : p < N) :
    Utils.getValueBS p w (w * N : ℕ) bs = .ok (cellValue w N bs p : ℤ) := by
  rw [Utils.getValueBS, Int.toNat_natCast, start_eq w hp, readBits_eq]
  simp [cellValue]

/-! ### Writing -/

theorem testBit_eq_shiftRight (v k : ℕ) : (((v : ℤ) >>> k) % 2 == 1) = v.testBit k := by
  rw [Int.shiftRight_eq_div_pow, Nat.testBit_eq_decide_div_mod_eq]
  have : ((v : ℤ) / ((2 ^ k : ℕ) : ℤ)) % 2 = ((v / 2 ^ k % 2 : ℕ) : ℤ) := by push_cast; rfl
  rw [this]
  by_cases h : v / 2 ^ k % 2 = 1
  · simp [h]
  · have h0 : v / 2 ^ k % 2 = 0 := by omega
    simp [h0]

theorem toNat_emod_lt (v : ℤ) (w : ℕ) : (v % 2 ^ w).toNat < 2 ^ w := by
  rw [Int.toNat_lt (Int.emod_nonneg v (by positivity))]
  push_cast
  exact Int.emod_lt_of_pos v (by positivity)

/-- The bits of an `int` below `w` are those of its remainder modulo `2 ^ w`. -/
theorem testBit_emod (v : ℤ) {k : ℕ} (hk : k < w) :
    ((v >>> k) % 2 == 1) = (v % 2 ^ w).toNat.testBit k := by
  have hRem : ((v % 2 ^ w).toNat : ℤ) = v % 2 ^ w :=
    Int.toNat_of_nonneg (Int.emod_nonneg v (by positivity))
  have hSplit : v = ((v % 2 ^ w).toNat : ℤ) + 2 ^ k * (2 * (2 ^ (w - k - 1) * (v / 2 ^ w))) := by
    have hPow : (2 : ℤ) ^ w = 2 ^ k * (2 * 2 ^ (w - k - 1)) := by
      rw [← pow_succ', ← pow_add]
      congr 1
      omega
    rw [hRem, ← Int.mul_assoc 2, ← Int.mul_assoc (2 ^ k), ← hPow, Int.emod_add_mul_ediv]
  rw [← testBit_eq_shiftRight, Int.shiftRight_eq_div_pow, Int.shiftRight_eq_div_pow]
  conv_lhs => rw [hSplit]
  push_cast
  rw [Int.add_mul_ediv_left _ _ (by positivity), Int.add_mul_emod_self_left]

/-- Writing `k` bits from `lo` on succeeds and changes these bits only. -/
theorem writeBits_eq (value : ℤ) (bs : BitSet) (lo k : ℕ) :
    ∃ bs', Utils.writeBits value k (lo + k - 1) bs = .ok bs' ∧
      Taquin.writeBits value k (lo + k - 1) bs = .ok bs' ∧
      ∀ x, bs'.bits.testBit x =
        if lo ≤ x ∧ x < lo + k then (value >>> (x - lo)) % 2 == 1 else bs.bits.testBit x := by
  induction k generalizing bs with
  | zero => exact ⟨bs, rfl, rfl, fun x => by rw [if_neg (by omega)]⟩
  | succ k ih =>
    obtain ⟨bs1, hSet, hBits⟩ := bs.set_natCast (lo + k) ((value >>> k) % 2 == 1)
    obtain ⟨bs', hUtils, hTaquin, hRest⟩ := ih bs1
    have hq : (lo : ℤ) + (k + 1 : ℕ) - 1 = ((lo + k : ℕ) : ℤ) := by push_cast; ring
    have hq' : ((lo + k : ℕ) : ℤ) - 1 = lo + k - 1 := by push_cast; ring
    refine ⟨bs', ?_, ?_, fun x => ?_⟩
    · rw [Utils.writeBits, hq, if_pos (Int.natCast_nonneg _), hSet, Result.ok_bind, hq', hUtils]
    · rw [Taquin.writeBits, hq, hSet, Result.ok_bind, hq', hTaquin]
    · rw [hRest x, hBits x]
      by_cases h1 : x = lo + k
      · subst h1
        rw [if_neg (by omega), if_pos rfl, if_pos (by omega), Nat.add_sub_cancel_left]
      · by_cases h2 : lo ≤ x ∧ x < lo + k
        · rw [if_pos h2, if_pos (by omega)]
        · rw [if_neg h2, if_neg h1, if_neg (by omega)]

theorem cell_lt (hp : p < N) : low w N p + w ≤ w * N := by
  obtain ⟨m, rfl⟩ : ∃ m, N = p + 1 + m := ⟨N - (p + 1), by omega⟩
  rw [low, show p + 1 + m - 1 - p = m by omega]
  calc m * w + w = w * (m + 1) := by ring
    _ ≤ w * (p + 1 + m) := Nat.mul_le_mul_left w (by omega)

/-- `setValueBS`, of `Utils` and of `Taquin`, writes the bits of one cell. -/
theorem setValueBS_bits (bs : BitSet) (hp : p < N) (v : ℤ) :
    ∃ bs', Utils.setValueBS p w (w * N : ℕ) bs v = .ok bs' ∧
      Taquin.writeBits v w ((w * N : ℕ) - p * w - 1) bs = .ok bs' ∧
      ∀ x, bs'.bits.testBit x = if low w N p ≤ x ∧ x < low w N p + w then
        (v >>> (x - low w N p)) % 2 == 1 else bs.bits.testBit x := by
  obtain ⟨bs', hUtils, hTaquin, hBits⟩ := writeBits_eq v bs (low w N p) w
  refine ⟨bs', ?_, by rw [start_eq w hp, hTaquin], hBits⟩
  rw [Utils.setValueBS, Int.toNat_natCast, start_eq w hp, hUtils]

/-- The methods of `Taquin` do on the object's bit set what those of `Utils` do. -/
theorem taquin_eq_utils {t : Taquin} (hw : t.nbits = w) (hSize : t.sizeBS = (w * N : ℕ))
    (hp : p < N) (v : ℤ) :
    t.getValueBS p = Utils.getValueBS p w (w * N : ℕ) t.taquinBS ∧
      ∃ bs', Utils.setValueBS p w (w * N : ℕ) t.taquinBS v = .ok bs' ∧
        t.setValueBS p v = .ok { t with taquinBS := bs' } := by
  obtain ⟨bs', hUtils, hTaquin, -⟩ := setValueBS_bits (w := w) t.taquinBS hp v
  refine ⟨?_, bs', hUtils, ?_⟩
  · rw [Taquin.getValueBS, hw, hSize]
    rfl
  · rw [Taquin.setValueBS, hw, hSize, Int.toNat_natCast, hTaquin]
    rfl

/-- `setValueBS` replaces the value of one cell by the value's remainder. -/
theorem setValueBS_emod (hb : Bounded (w * N) bs) (hp : p < N) (v : ℤ) :
    ∃ bs', Utils.setValueBS p w (w * N : ℕ) bs v = .ok bs' ∧ Bounded (w * N) bs' ∧
      ∀ q < N, cellValue w N bs' q =
        if q = p then (v % 2 ^ w).toNat else cellValue w N bs q := by
  obtain ⟨bs', hUtils, -, hBits⟩ := setValueBS_bits (w := w) bs hp v
  have hCell := cell_lt (w := w) hp
  refine ⟨bs', hUtils, fun x hx => ?_, fun q hq => ?_⟩
  · rw [hBits x, if_neg (by omega), hb x hx]
  · apply Nat.eq_of_testBit_eq
    intro k
    rw [testBit_cellValue, hBits]
    by_cases hk : k < w
    · have hw : 0 < w := by omega
      have hq' := (mem_cell_iff (N := N) (p := q) (x := low w N q + k) hw).mp (by omega)
      by_cases hpq : q = p
      · subst hpq
        rw [if_pos (by omega), if_pos rfl, Nat.add_sub_cancel_left, testBit_emod v hk]
        simp [hk]
      · rw [if_neg, if_neg hpq, testBit_cellValue]
        intro hmem
        have := (mem_cell_iff (N := N) hw).mp hmem
        omega
    · have hRem : (v % 2 ^ w).toNat.testBit k = false :=
        Nat.testBit_lt_two_pow
          ((toNat_emod_lt v w).trans_le (Nat.pow_le_pow_right (by decide) (by omega)))
      by_cases hpq : q = p <;> simp [hpq, hk, hRem, testBit_cellValue]

/-- `setValueBS` replaces the value of one cell, when it fits. -/
theorem setValueBS_eq (hb : Bounded (w * N) bs) (hp : p < N) {v : ℕ} (hv : v < 2 ^ w) :
    ∃ bs', Utils.setValueBS p w (w * N : ℕ) bs v = .ok bs' ∧ Bounded (w * N) bs' ∧
      ∀ q < N, cellValue w N bs' q = if q = p then v else cellValue w N bs q := by
  have hRem : ((v : ℤ) % 2 ^ w).toNat = v := by
    rw [Int.emod_eq_of_lt (Int.natCast_nonneg v) (by exact_mod_cast hv), Int.toNat_natCast]
  simpa only [hRem] using setValueBS_emod hb hp (v : ℤ)

end Cells

/-! ### Widths -/

/-- The number of bits of a cell: the least with `n * n` values. -/
def width (n : ℕ) : ℕ := Nat.clog 2 (n * n)

theorem square_le_two_pow (n : ℕ) : n * n ≤ 2 ^ width n := Nat.le_pow_clog (by decide) _

theorem width_le {n : ℕ} (hn : n ≤ 256) : width n ≤ 16 := by
  rw [width, Nat.clog_le_iff_le_pow (by decide)]
  calc n * n ≤ 256 * 256 := Nat.mul_le_mul hn hn
    _ = 2 ^ 16 := by norm_num

theorem two_pow_width_le {n : ℕ} (hn : n ≤ 256) : 2 ^ width n ≤ 2 ^ 31 :=
  Nat.pow_le_pow_right (by decide) ((width_le hn).trans (by decide))

theorem maskOf_eq {k : ℕ} (hk : k ≤ 16) : Taquin.maskOf k = 2 ^ k - 1 := by
  have h : ∀ k < 17, Taquin.maskOf (k : ℕ) = 2 ^ k - 1 := by decide
  exact h k (by omega)

/-- A loop that tries the widths one after the other gets to the least sufficient one. -/
theorem iterates_widths {n : ℕ} (cond : ℤ × ℤ → Bool) (body : ℤ × ℤ → Result (ℤ × ℤ))
    (hCond : ∀ j : ℕ, cond ((j : ℤ), 2 ^ j - 1) = decide (2 ^ j < n * n))
    (hBody : ∀ j < width n, body ((j : ℤ), 2 ^ j - 1) = .ok (((j + 1 : ℕ) : ℤ), 2 ^ (j + 1) - 1)) :
    Iterates cond body (width n) (0, 0) ((width n : ℤ), 2 ^ width n - 1) ∧
      cond ((width n : ℤ), 2 ^ width n - 1) = false := by
  have hIter : ∀ j ≤ width n, Iterates cond body j (0, 0) ((j : ℤ), 2 ^ j - 1) := by
    intro j hj
    induction j with
    | zero => exact .refl _
    | succ j ih =>
      have hLt : 2 ^ j < n * n := by
        rw [← Nat.lt_clog_iff_pow_lt (by decide)]
        exact hj
      refine (ih (by omega)).trans (.step ?_ (hBody j hj) (.refl _))
      rw [hCond, decide_eq_true hLt]
  refine ⟨hIter _ le_rfl, ?_⟩
  rw [hCond, decide_eq_false (Nat.not_lt.mpr (square_le_two_pow n))]

theorem two_pow_sub_one_lt_iff (n j : ℕ) :
    (2 : ℤ) ^ j - 1 < (n : ℤ) * n - 1 ↔ 2 ^ j < n * n := by
  rw [sub_lt_sub_iff_right]
  exact_mod_cast Iff.rfl

/-- For a side of at most 256 the loop of `nBits` stops at the least sufficient width. -/
theorem nBits_eq {n : ℕ} (hn : n ≤ 256) :
    Taquin.nBits n = .ok ((width n : ℤ), 2 ^ width n - 1) := by
  have hWidth := width_le hn
  obtain ⟨hIter, hStop⟩ := iterates_widths (n := n)
    (fun s => decide (s.2 < (n : ℤ) * n - 1)) (fun s => .ok (s.1 + 1, Taquin.maskOf (s.1 + 1)))
    (fun j => decide_eq_decide.mpr (two_pow_sub_one_lt_iff n j))
    (fun j hj => by
      have hMask := maskOf_eq (k := j + 1) (by omega)
      push_cast at hMask ⊢
      rw [hMask])
  exact hIter.whileLoop_eq hStop (by omega)

theorem sizeBS_eq (n : ℕ) : (width n : ℤ) * n * n = ((width n * (n * n) : ℕ) : ℤ) := by
  push_cast
  ring

/-! ### Boards -/

variable {n : ℕ}

/-- The packed board `bs` shows `b`: no bit is set from `sizeBS` on, and each cell of `bs` decodes
to the number in that cell of `b`. -/
def Shows (nbits sizeBS : Int) (bs : BitSet) (b : Board n) : Prop :=
  (∀ q : ℕ, sizeBS ≤ q → bs.get q = .ok false) ∧
    ∀ i j : Fin n, Utils.getValueBSAt (i : ℕ) (j : ℕ) n nbits sizeBS bs = .ok ((b (i, j) : ℕ) : ℤ)

/-- The number of a cell in row-major order. -/
def index (c : Cell n) : ℕ := c.1 * n + c.2

theorem index_lt (c : Cell n) : index c < n * n := by
  have h1 := c.1.isLt
  have h2 := c.2.isLt
  calc c.1 * n + c.2 < c.1 * n + n := by omega
    _ = (c.1 + 1) * n := by ring
    _ ≤ n * n := Nat.mul_le_mul_right n h1

theorem index_injective : Function.Injective (index (n := n)) := by
  intro c c' h
  have hIndex : ∀ c : Cell n, index c / n = c.1 ∧ index c % n = c.2 := fun c => by
    have := c.2.isLt
    constructor
    · rw [index, Nat.add_comm, Nat.add_mul_div_right _ _ (by omega), Nat.div_eq_of_lt this,
        Nat.zero_add]
    · rw [index, Nat.add_comm, Nat.add_mul_mod_self_right, Nat.mod_eq_of_lt this]
  obtain ⟨h1, h2⟩ := hIndex c
  obtain ⟨h1', h2'⟩ := hIndex c'
  rw [h] at h1 h2
  exact Prod.ext (Fin.ext (h1.symm.trans h1')) (Fin.ext (h2.symm.trans h2'))

theorem exists_index {p : ℕ} (hp : p < n * n) : ∃ c : Cell n, index c = p := by
  have hn : 0 < n := Nat.pos_of_ne_zero fun h => by simp [h] at hp
  refine ⟨(⟨p / n, Nat.div_lt_of_lt_mul hp⟩, ⟨p % n, Nat.mod_lt _ hn⟩), ?_⟩
  rw [index, Nat.mul_comm]
  exact Nat.div_add_mod p n

theorem getPosition_eq (i j : ℕ) : Utils.getPosition i j n = ((i * n + j : ℕ) : ℤ) := by
  rw [Utils.getPosition]
  push_cast
  ring

theorem goal_index (c : Cell n) : (goal n c : ℕ) = (index c + 1) % (n * n) := by
  rw [show goal n c = goal n (c.1, c.2) from rfl, goal_apply, index, Nat.mul_comm]

section Shows

variable {w : ℕ} {bs bs' : BitSet} {b b' : Board n}

theorem getValueBSAt_eq (bs : BitSet) (c : Cell n) :
    Utils.getValueBSAt (c.1 : ℕ) (c.2 : ℕ) n w (w * (n * n) : ℕ) bs =
      .ok (cellValue w (n * n) bs (index c) : ℤ) := by
  rw [Utils.getValueBSAt, getPosition_eq]
  exact getValueBS_eq w bs (index_lt c)

theorem shows_iff : Shows w (w * (n * n) : ℕ) bs b ↔
    Bounded (w * (n * n)) bs ∧ ∀ c, cellValue w (n * n) bs (index c) = b c := by
  refine and_congr bounded_iff ⟨fun hv c => ?_, fun hv i j => ?_⟩
  · have := (getValueBSAt_eq bs c).symm.trans (hv c.1 c.2)
    simpa using this
  · rw [← hv (i, j)]
    exact getValueBSAt_eq bs (i, j)

/-- The packed goal of size 2, whose cells are 1, 2, 3 and 0. -/
theorem shows_goal_two : Shows 2 8 ⟨108⟩ (goal 2) := by
  refine shows_iff.mpr ⟨fun q hq => ?_, by decide⟩
  exact Nat.testBit_lt_two_pow
    (Nat.lt_of_lt_of_le (by decide) (Nat.pow_le_pow_right (by decide) hq))

theorem Shows.unique (h : Shows w (w * (n * n) : ℕ) bs b) (h' : Shows w (w * (n * n) : ℕ) bs b') :
    b = b' := by
  ext c
  rw [← (shows_iff.mp h).2 c, ← (shows_iff.mp h').2 c]

theorem Shows.bits_unique (h : Shows w (w * (n * n) : ℕ) bs b)
    (h' : Shows w (w * (n * n) : ℕ) bs' b) : bs = bs' := by
  apply eq_of_cellValue (shows_iff.mp h).1 (shows_iff.mp h').1
  intro p hp
  obtain ⟨c, rfl⟩ := exists_index hp
  rw [(shows_iff.mp h).2 c, (shows_iff.mp h').2 c]

/-- The clone, read, write, write of a move shows the moved board. -/
theorem Shows.slide (h : Shows (width n) (width n * (n * n) : ℕ) bs b) {c : Cell n}
    (hc : IsBlank b c) (c' : Cell n) :
    ∃ move bs1 bs2,
      Utils.getValueBSAt (c'.1 : ℕ) (c'.2 : ℕ) n (width n) (width n * (n * n) : ℕ) bs = .ok move ∧
      Utils.setValueBSAt (c.1 : ℕ) (c.2 : ℕ) n (width n) (width n * (n * n) : ℕ) bs move
        = .ok bs1 ∧
      Utils.setValueBSAt (c'.1 : ℕ) (c'.2 : ℕ) n (width n) (width n * (n * n) : ℕ) bs1 0
        = .ok bs2 ∧
      Shows (width n) (width n * (n * n) : ℕ) bs2 (slide b c c') := by
  obtain ⟨hb, hv⟩ := shows_iff.mp h
  have hMove := (h.2 c'.1 c'.2)
  have hValue : (b c' : ℕ) < 2 ^ width n := (b c').isLt.trans_le (square_le_two_pow n)
  obtain ⟨bs1, hSet1, hb1, hv1⟩ := setValueBS_eq hb (index_lt c) hValue
  obtain ⟨bs2, hSet2, hb2, hv2⟩ := setValueBS_eq hb1 (index_lt c') (v := 0) (by positivity)
  refine ⟨_, bs1, bs2, hMove, ?_, ?_, shows_iff.mpr ⟨hb2, fun d => ?_⟩⟩
  · rw [Utils.setValueBSAt, getPosition_eq]
    exact hSet1
  · rw [Utils.setValueBSAt, getPosition_eq]
    exact hSet2
  · rw [hv2 _ (index_lt d), hv1 _ (index_lt d), slide_apply]
    by_cases h1 : d = c'
    · subst h1
      rw [if_pos rfl, Equiv.swap_apply_right]
      exact hc.symm
    · rw [if_neg fun e => h1 (index_injective e)]
      by_cases h2 : d = c
      · subst h2
        rw [if_pos rfl, Equiv.swap_apply_left]
      · rw [if_neg fun e => h2 (index_injective e), Equiv.swap_apply_of_ne_of_ne h2 h1, hv d]

end Shows

/-! ### The goal -/

theorem taquin_setValueBS_eq {w N p v : ℕ} {t : Taquin} (hw : t.nbits = w)
    (hSize : t.sizeBS = (w * N : ℕ)) (hb : Bounded (w * N) t.taquinBS) (hp : p < N)
    (hv : v < 2 ^ w) :
    ∃ bs', t.setValueBS p v = .ok { t with taquinBS := bs' } ∧ Bounded (w * N) bs' ∧
      ∀ q < N, cellValue w N bs' q = if q = p then v else cellValue w N t.taquinBS q := by
  obtain ⟨bs', hUtils, hb', hv'⟩ := setValueBS_eq hb hp hv
  obtain ⟨bs1, hUtils1, hSet⟩ := (taquin_eq_utils hw hSize hp v).2
  obtain rfl : bs' = bs1 := Except.ok.inj (hUtils.symm.trans hUtils1)
  exact ⟨bs', hSet, hb', hv'⟩

theorem setValues_eq {w N : ℕ} (hN : N ≤ 2 ^ w) {t : Taquin} (hw : t.nbits = w)
    (hSize : t.sizeBS = (w * N : ℕ)) (hb : Bounded (w * N) t.taquinBS) {count i : ℕ}
    (hi : 0 < i) (hCount : i + count ≤ N) :
    ∃ bs', Taquin.setValues count i t = .ok { t with taquinBS := bs' } ∧ Bounded (w * N) bs' ∧
      ∀ q < N, cellValue w N bs' q =
        if i ≤ q + 1 ∧ q + 1 < i + count then q + 1 else cellValue w N t.taquinBS q := by
  induction count generalizing i t with
  | zero => exact ⟨t.taquinBS, rfl, hb, fun q _ => by rw [if_neg (by omega)]⟩
  | succ count ih =>
    obtain ⟨bs1, hSet, hb1, hv1⟩ :=
      taquin_setValueBS_eq hw hSize hb (show i - 1 < N by omega) (show i < 2 ^ w by omega)
    have hPos : (i : ℤ) - 1 = ((i - 1 : ℕ) : ℤ) := by omega
    obtain ⟨bs', hRest, hb', hv'⟩ := ih (t := { t with taquinBS := bs1 }) hw hSize hb1
      (show 0 < i + 1 by omega) (by omega)
    refine ⟨bs', ?_, hb', fun q hq => ?_⟩
    · rw [Taquin.setValues, hPos, hSet, Result.ok_bind]
      exact_mod_cast hRest
    · rw [hv' q hq, hv1 q hq]
      by_cases h1 : q = i - 1
      · rw [if_neg (by omega), if_pos h1, if_pos (by omega)]
        omega
      · by_cases h2 : i + 1 ≤ q + 1 ∧ q + 1 < i + 1 + count
        · rw [if_pos h2, if_pos (by omega)]
        · rw [if_neg h2, if_neg h1, if_neg (by omega)]

/-- The constructor `Taquin(n)` packs the goal. -/
theorem new_eq (hn : 1 ≤ n) (hn' : n ≤ 256) :
    ∃ t, Taquin.new n = .ok t ∧ t.nbits = width n ∧ t.sizeBS = (width n * (n * n) : ℕ) ∧
      t.iPuzzle = n - 1 ∧ t.jPuzzle = n - 1 ∧
      Shows (width n) (width n * (n * n) : ℕ) t.taquinBS (goal n) := by
  have hPos : 0 < n * n := Nat.mul_pos hn hn
  have hSize := sizeBS_eq n
  have hCells : 1 + (n * n - 1) ≤ n * n := by omega
  obtain ⟨bs, hSet, hb, hv⟩ := setValues_eq (square_le_two_pow n)
    (t := { taquinBS := .empty, maskBits := 2 ^ width n - 1, nbits := width n,
            sizeBS := (width n * (n * n) : ℕ), n := n, iPuzzle := 0, jPuzzle := 0 })
    rfl rfl (bounded_empty _) (by decide) hCells
  refine ⟨{ taquinBS := bs, maskBits := 2 ^ width n - 1, nbits := width n,
            sizeBS := (width n * (n * n) : ℕ), n := n, iPuzzle := n - 1, jPuzzle := n - 1 },
    ?_, rfl, rfl, rfl, rfl, shows_iff.mpr ⟨hb, fun c => ?_⟩⟩
  · have hCount : ((n : ℤ) * n - 1).toNat = n * n - 1 := by
      have : (n : ℤ) * n - 1 = ((n * n - 1 : ℕ) : ℤ) := by
        push_cast [hPos]
        ring
      rw [this, Int.toNat_natCast]
    rw [Nat.cast_one] at hSet
    simp only [Taquin.new, nBits_eq hn', Result.ok_bind, hSize, hCount, hSet]
    rfl
  · have hc := index_lt c
    rw [hv _ hc, goal_index]
    by_cases hLast : index c + 1 = n * n
    · rw [if_neg (by omega), hLast, Nat.mod_self]
      simp [cellValue, BitSet.empty]
    · rw [if_pos (by omega), Nat.mod_eq_of_lt (by omega)]

/-! ### The array -/

section Array

variable {w N p : ℕ} {bs : BitSet}

/-- Only the bits of the cell that is written may change. -/
theorem mem_cell_of_changed {bs' : BitSet} (hp : p < N) {v : ℤ}
    (hSet : Utils.setValueBS p w (w * N : ℕ) bs v = .ok bs') {x : ℕ} (hx : bs'.get x ≠ bs.get x) :
    0 ≤ ((w * N : ℕ) : ℤ) - (p + 1) * w ∧ ((w * N : ℕ) : ℤ) - (p + 1) * w ≤ x ∧
      (x : ℤ) < (w * N : ℕ) - p * w ∧ (x : ℤ) < (w * N : ℕ) := by
  obtain ⟨bs1, hSet1, -, hBits⟩ := setValueBS_bits (w := w) bs hp v
  obtain rfl : bs' = bs1 := Except.ok.inj (hSet.symm.trans hSet1)
  have hStart := start_eq w hp
  have hCell := cell_lt (w := w) hp
  have hMem : low w N p ≤ x ∧ x < low w N p + w := by
    by_contra hOut
    rw [BitSet.get_natCast, BitSet.get_natCast, hBits, if_neg hOut] at hx
    exact hx rfl
  rw [add_mul, one_mul]
  omega

end Array

/-- A packed board is an array of `n * n` numbers of `nbits` bits, for the methods of `Utils` and
for those of `Taquin`. -/
theorem packed_array (n : ℕ) (hn' : n ≤ 256) :
    ∃ nbits maskBits : ℤ, Taquin.nBits n = .ok (nbits, maskBits) ∧ 0 ≤ nbits ∧
      (∀ x : ℕ, x < n * n → (x : ℤ) < 2 ^ nbits.toNat) ∧
      (∀ bs : BitSet, (∀ x : ℕ, nbits * n * n ≤ x → bs.get x = .ok false) →
        ∀ (p : ℕ) (v : ℤ), p < n * n → 0 ≤ v → v < 2 ^ nbits.toNat →
          ∃ bs', Utils.setValueBS p nbits (nbits * n * n) bs v = .ok bs' ∧
            Utils.getValueBS p nbits (nbits * n * n) bs' = .ok v ∧
            (∀ q : ℕ, q < n * n → q ≠ p → Utils.getValueBS q nbits (nbits * n * n) bs' =
              Utils.getValueBS q nbits (nbits * n * n) bs) ∧
            ∀ x : ℕ, bs'.get x ≠ bs.get x → 0 ≤ nbits * n * n - (p + 1) * nbits ∧
              nbits * n * n - (p + 1) * nbits ≤ x ∧ x < nbits * n * n - p * nbits ∧
              x < nbits * n * n) ∧
      (∀ bs bs' : BitSet, (∀ x : ℕ, nbits * n * n ≤ x → bs.get x = .ok false) →
        (∀ x : ℕ, nbits * n * n ≤ x → bs'.get x = .ok false) →
        (∀ p : ℕ, p < n * n → Utils.getValueBS p nbits (nbits * n * n) bs =
          Utils.getValueBS p nbits (nbits * n * n) bs') → bs = bs') ∧
      ∀ t : Taquin, t.n = n → t.nbits = nbits → t.sizeBS = nbits * n * n →
        (∀ x : ℕ, nbits * n * n ≤ x → t.taquinBS.get x = .ok false) →
        (∀ (p : ℕ) (v : ℤ), p < n * n → 0 ≤ v → v < 2 ^ nbits.toNat →
          t.getValueBS p = Utils.getValueBS p nbits (nbits * n * n) t.taquinBS ∧
          ∃ bs', Utils.setValueBS p nbits (nbits * n * n) t.taquinBS v = .ok bs' ∧
            t.setValueBS p v = .ok { t with taquinBS := bs' }) ∧
        ∀ (i j : ℕ) (v : ℤ), i < n → j < n → 0 ≤ v → v < 2 ^ nbits.toNat →
          t.getValueBSAt i j = Utils.getValueBSAt i j n nbits (nbits * n * n) t.taquinBS ∧
          ∃ bs', Utils.setValueBSAt i j n nbits (nbits * n * n) t.taquinBS v = .ok bs' ∧
            t.setValueBSAt i j v = .ok { t with taquinBS := bs' } := by
  refine ⟨_, _, nBits_eq hn', Int.natCast_nonneg _, fun x hx => ?fits, ?_⟩
  case fits =>
    rw [Int.toNat_natCast]
    exact_mod_cast hx.trans_le (square_le_two_pow n)
  simp only [sizeBS_eq, Int.toNat_natCast, bounded_iff]
  refine ⟨fun bs hb p v hp h0 hv => ?write, fun bs bs' hb hb' hEq => ?ext,
    fun t hn hw hSize _ => ⟨fun p v hp _ _ => taquin_eq_utils hw hSize hp v, ?_⟩⟩
  case write =>
    obtain ⟨v, rfl⟩ := Int.eq_ofNat_of_zero_le h0
    obtain ⟨bs', hSet, -, hValue⟩ :=
      setValueBS_eq hb hp (show v < 2 ^ width n by exact_mod_cast hv)
    refine ⟨bs', hSet, ?_, fun q hq hne => ?_, fun x => mem_cell_of_changed hp hSet⟩
    · rw [getValueBS_eq _ _ hp, hValue p hp, if_pos rfl]
    · rw [getValueBS_eq _ _ hq, getValueBS_eq _ _ hq, hValue q hq, if_neg hne]
  case ext =>
    refine eq_of_cellValue hb hb' fun p hp => ?_
    have := hEq p hp
    rw [getValueBS_eq _ _ hp, getValueBS_eq _ _ hp] at this
    exact_mod_cast Except.ok.inj this
  · intro i j v hi hj _ _
    have hp := index_lt ((⟨i, hi⟩, ⟨j, hj⟩) : Cell n)
    have hPos : t.getPosition i j = ((i * n + j : ℕ) : ℤ) := by
      rw [Taquin.getPosition, hn]
      push_cast
      rfl
    rw [Taquin.getValueBSAt, Taquin.setValueBSAt, hPos, Utils.getValueBSAt, Utils.setValueBSAt,
      getPosition_eq]
    exact taquin_eq_utils hw hSize hp v

/-- In the packed goal of size 2 the first cell is set to 3. -/
theorem packed_array_two :
    ∃ nbits maskBits : ℤ, Taquin.nBits (2 : ℕ) = .ok (nbits, maskBits) ∧
      ∃ bs', Utils.setValueBS 0 nbits (nbits * (2 : ℕ) * (2 : ℕ)) ⟨108⟩ 3 = .ok bs' ∧
        Utils.getValueBS 0 nbits (nbits * (2 : ℕ) * (2 : ℕ)) bs' = .ok 3 ∧
        ∀ q : ℕ, q < 2 * 2 → q ≠ 0 → Utils.getValueBS q nbits (nbits * (2 : ℕ) * (2 : ℕ)) bs' =
          Utils.getValueBS q nbits (nbits * (2 : ℕ) * (2 : ℕ)) ⟨108⟩ := by
  obtain ⟨nbits, maskBits, hBits, -, -, hWrite, -⟩ := packed_array 2 (by decide)
  have hSame := (nBits_eq (by decide)).symm.trans hBits
  obtain rfl : 2 = nbits := (Prod.mk.inj (Except.ok.inj hSame)).1
  obtain ⟨bs', hSet, hGet, hOther, -⟩ :=
    hWrite ⟨108⟩ shows_goal_two.1 0 3 (by decide) (by decide) (by decide)
  exact ⟨2, maskBits, hBits, bs', hSet, hGet, hOther⟩

end TaquinSolver
