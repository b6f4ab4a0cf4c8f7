import Mathlib.Tactic.Ring
import Mathlib.Data.Nat.Log

/-! Rounding to `p` significant bits, to the nearest and between two to the even one.  A power of
two only moves the point, so a natural number stands for every number with its digits, and a binary
float of precision `p` rounds the numbers of its normal range so. -/

namespace Floats

/-- `m / 2 ^ e`, rounded to the nearest. -/
def nearest (e m : Nat) : Nat :=
  if 2 * (m % 2 ^ e) < 2 ^ e ∨ 2 * (m % 2 ^ e) = 2 ^ e ∧ m / 2 ^ e % 2 = 0 then m / 2 ^ e
  else m / 2 ^ e + 1

/-- How many bits of `m` do not fit into `p` bits. -/
def excess (p m : Nat) : Nat := m.log2 + 1 - p

/-- `m` with `p` significant bits. -/
def round (p m : Nat) : Nat := nearest (excess p m) m * 2 ^ excess p m

theorem nearest_zero (m : Nat) : nearest 0 m = m := by
  simp [nearest, Nat.mod_one]

theorem nearest_mul (e k : Nat) : nearest e (k * 2 ^ e) = k := by
  simp [nearest]

theorem nearest_mono (e : Nat) {m n : Nat} (h : m ≤ n) : nearest e m ≤ nearest e n := by
  have hq : m / 2 ^ e ≤ n / 2 ^ e := Nat.div_le_div_right h
  rcases hq.lt_or_eq with hq | hq
  · -- the quotients differ, so rounding up below reaches at most what lies above
    have hm : nearest e m ≤ m / 2 ^ e + 1 := by
      unfold nearest
      split <;> omega
    have hn : n / 2 ^ e ≤ nearest e n := by
      unfold nearest
      split <;> omega
    omega
  · have hr : m % 2 ^ e ≤ n % 2 ^ e := by
      have hm := Nat.div_add_mod m (2 ^ e)
      have hn := Nat.div_add_mod n (2 ^ e)
      rw [hq] at hm
      omega
    unfold nearest
    rw [hq]
    split <;> split <;> omega

theorem nearest_succ (e m : Nat) : nearest (e + 1) (2 * m) = nearest e m := by
  have hq : 2 * m / 2 ^ (e + 1) = m / 2 ^ e := by
    rw [Nat.pow_succ', Nat.mul_div_mul_left _ _ (by omega)]
  have hr : 2 * m % 2 ^ (e + 1) = 2 * (m % 2 ^ e) := by
    rw [Nat.pow_succ', Nat.mul_mod_mul_left]
  unfold nearest
  rw [hq, hr, Nat.pow_succ']
  refine if_congr ?_ rfl rfl
  omega

theorem lt_two_pow_excess (p m : Nat) : m < 2 ^ (p + excess p m) := by
  refine Nat.lt_log2_self.trans_le (Nat.pow_le_pow_right (by omega) ?_)
  unfold excess
  omega

theorem excess_of_lt {p m : Nat} (hp : 0 < p) (h : m < 2 ^ p) : excess p m = 0 := by
  rcases Nat.eq_zero_or_pos m with rfl | hm
  · simp only [excess, Nat.log2_zero]
    omega
  · have hLog := (Nat.log2_lt (by omega)).2 h
    unfold excess
    omega

/-- A number that fits is kept. -/
theorem round_of_lt {p m : Nat} (hp : 0 < p) (h : m < 2 ^ p) : round p m = m := by
  rw [round, excess_of_lt hp h, nearest_zero, Nat.pow_zero, Nat.mul_one]

theorem excess_mono {p m n : Nat} (h : m ≤ n) : excess p m ≤ excess p n := by
  have hLog : m.log2 ≤ n.log2 := by
    rw [Nat.log2_eq_log_two, Nat.log2_eq_log_two]
    exact Nat.log_mono_right h
  unfold excess
  omega

/-- A larger number is not rounded to a smaller one. -/
theorem round_mono {p : Nat} (hp : 0 < p) {m n : Nat} (h : m ≤ n) : round p m ≤ round p n := by
  rcases (excess_mono (p := p) h).lt_or_eq with hLt | hEq
  · -- `2 ^ (p + excess p m)` lies between them and has one significant bit
    have hm : nearest (excess p m) m ≤ 2 ^ p := by
      rw [← nearest_mul (excess p m) (2 ^ p), ← Nat.pow_add]
      exact nearest_mono _ (lt_two_pow_excess p m).le
    have hn : 2 ^ (p - 1) ≤ nearest (excess p n) n := by
      rw [← nearest_mul (excess p n) (2 ^ (p - 1)), ← Nat.pow_add]
      apply nearest_mono _
      have hNe : n ≠ 0 := by
        rintro rfl
        have hZero : excess p 0 = 0 := excess_of_lt hp (Nat.two_pow_pos p)
        omega
      refine (Nat.pow_le_pow_right (by omega) ?_).trans (Nat.log2_self_le hNe)
      unfold excess at hLt ⊢
      omega
    calc round p m ≤ 2 ^ p * 2 ^ excess p m := Nat.mul_le_mul_right _ hm
      _ = 2 ^ (p + excess p m) := (Nat.pow_add ..).symm
      _ ≤ 2 ^ (p - 1 + excess p n) := Nat.pow_le_pow_right (by omega) (by omega)
      _ = 2 ^ (p - 1) * 2 ^ excess p n := Nat.pow_add ..
      _ ≤ round p n := Nat.mul_le_mul_right _ hn
  · rw [round, round, hEq]
    exact Nat.mul_le_mul_right _ (nearest_mono _ h)

theorem round_two_mul {p : Nat} (hp : 0 < p) (m : Nat) : round p (2 * m) = 2 * round p m := by
  rcases lt_or_ge m (2 ^ (p - 1)) with h | h
  · have hDouble : 2 * m < 2 ^ p := by
      have hPow : 2 ^ p = 2 * 2 ^ (p - 1) := by
        rw [← Nat.pow_succ', Nat.succ_eq_add_one, Nat.sub_add_cancel hp]
      omega
    rw [round_of_lt hp hDouble, round_of_lt hp (by omega)]
  · have hNe : m ≠ 0 := by
      have hPos := Nat.two_pow_pos (p - 1)
      omega
    have hLog : p - 1 ≤ m.log2 := (Nat.le_log2 hNe).2 h
    have hExcess : excess p (2 * m) = excess p m + 1 := by
      rw [excess, Nat.log2_two_mul hNe, excess]
      omega
    rw [round, hExcess, nearest_succ, round, Nat.pow_succ']
    ring

theorem round_two_pow_mul {p : Nat} (hp : 0 < p) (k m : Nat) :
    round p (2 ^ k * m) = 2 ^ k * round p m := by
  induction k with
  | zero => rw [Nat.pow_zero, Nat.one_mul, Nat.one_mul]
  | succ k ih => rw [Nat.pow_succ', Nat.mul_assoc, round_two_mul hp, ih, Nat.mul_assoc]

end Floats
