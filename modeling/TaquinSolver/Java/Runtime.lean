import Mathlib.Data.List.AList
import Mathlib.Data.Nat.Bitwise

/-! The parts of Java that programs over collections rest on: computations that may throw, lists
with checked indices, bit sets, hash maps, and the narrowing of integers.  A list index is an
`Int`, as in Java, and a reader of a result meets natural indices only through `listGet_eq_ok` and
`listSet_eq_ok`. -/

namespace Java

/-- Why a computation does not return: an unchecked exception, or a loop that was still running
when the iterations allotted to it were used up. -/
inductive Failure
  | indexOutOfBounds
  | nullPointer
  | numberFormat
  | outOfFuel
  deriving DecidableEq, Repr

/-- The result of a computation that may fail. -/
abbrev Result (α : Type) := Except Failure α

instance {α : Type} [DecidableEq α] : DecidableEq (Result α)
  | .ok a, .ok b => decidable_of_iff (a = b) (by simp)
  | .error e, .error f => decidable_of_iff (e = f) (by simp)
  | .ok _, .error _ => .isFalse (by simp)
  | .error _, .ok _ => .isFalse (by simp)

section Result

variable {α β : Type}

@[simp] theorem Result.ok_bind (a : α) (f : α → Result β) : (Except.ok a >>= f) = f a := rfl

@[simp] theorem Result.error_bind (e : Failure) (f : α → Result β) :
    ((Except.error e : Result α) >>= f) = .error e := rfl

@[simp] theorem Result.pure_eq (a : α) : (pure a : Result α) = .ok a := rfl

theorem Result.bind_eq_ok {x : Result α} {f : α → Result β} {b : β} :
    (x >>= f) = .ok b ↔ ∃ a, x = .ok a ∧ f a = .ok b := by
  cases x with
  | ok a => simp
  | error e => simp

end Result

/-! ### Lists -/

section List

variable {α : Type}

/-- `List.get`. -/
def listGet (l : List α) (i : Int) : Result α :=
  match l[i.toNat]? with
  | some a => if 0 ≤ i then .ok a else .error .indexOutOfBounds
  | none => .error .indexOutOfBounds

/-- `List.set`, with the new list as its result. -/
def listSet (l : List α) (i : Int) (a : α) : Result (List α) :=
  if 0 ≤ i ∧ i.toNat < l.length then .ok (l.set i.toNat a) else .error .indexOutOfBounds

theorem listGet_eq_ok {l : List α} {i : Int} {a : α} :
    listGet l i = .ok a ↔ ∃ k : ℕ, i = k ∧ l[k]? = some a := by
  constructor
  · intro h
    unfold listGet at h
    split at h
    · rename_i b hb
      split at h
      · rename_i hi
        cases h
        exact ⟨i.toNat, by omega, hb⟩
      · cases h
    · cases h
  · rintro ⟨k, rfl, hk⟩
    simp [listGet, hk]

@[simp] theorem listGet_natCast {l : List α} {k : ℕ} {a : α} :
    listGet l (k : Int) = .ok a ↔ l[k]? = some a := by
  rw [listGet_eq_ok]
  constructor
  · rintro ⟨j, hj, h⟩
    obtain rfl : k = j := by omega
    exact h
  · exact fun h => ⟨k, rfl, h⟩

theorem listGet_of_lt {l : List α} {k : ℕ} (hk : k < l.length) :
    listGet l (k : Int) = .ok l[k] := by
  simp [List.getElem?_eq_getElem hk]

theorem listSet_eq_ok {l l' : List α} {i : Int} {a : α} :
    listSet l i a = .ok l' ↔ ∃ k : ℕ, i = k ∧ k < l.length ∧ l' = l.set k a := by
  constructor
  · intro h
    unfold listSet at h
    split at h
    · rename_i hi
      cases h
      exact ⟨i.toNat, by omega, hi.2, rfl⟩
    · cases h
  · rintro ⟨k, rfl, hk, rfl⟩
    simp [listSet, hk]

theorem listSet_of_lt {l : List α} {k : ℕ} (hk : k < l.length) (a : α) :
    listSet l (k : Int) a = .ok (l.set k a) :=
  listSet_eq_ok.mpr ⟨k, rfl, hk, rfl⟩

end List

/-! ### Bit sets -/

/-- `java.util.BitSet`: the set of the indices of the one bits of `bits`.  Two bit sets are equal,
as `BitSet.equals` compares them, when they have the same elements. -/
structure BitSet where
  bits : ℕ
  deriving DecidableEq, Repr

namespace BitSet

/-- `new BitSet(..)`: no bit is set.  The argument of the constructor is a size hint. -/
def empty : BitSet := ⟨0⟩

/-- `BitSet.get`. -/
def get (bs : BitSet) (q : Int) : Result Bool :=
  if 0 ≤ q then .ok (bs.bits.testBit q.toNat) else .error .indexOutOfBounds

/-- `BitSet.set`. -/
def set (bs : BitSet) (q : Int) (b : Bool) : Result BitSet :=
  if 0 ≤ q then
    .ok (if bs.bits.testBit q.toNat = b then bs else ⟨bs.bits ^^^ 2 ^ q.toNat⟩)
  else .error .indexOutOfBounds

@[ext] theorem ext {bs bs' : BitSet} (h : ∀ q, bs.bits.testBit q = bs'.bits.testBit q) :
    bs = bs' := by
  cases bs
  cases bs'
  exact congrArg BitSet.mk (Nat.eq_of_testBit_eq h)

@[simp] theorem testBit_empty (q : ℕ) : empty.bits.testBit q = false := Nat.zero_testBit q

@[simp] theorem get_natCast (bs : BitSet) (q : ℕ) :
    bs.get (q : Int) = .ok (bs.bits.testBit q) := by
  simp [get]

/-- Storing a bit succeeds at a natural index, and changes that bit only. -/
theorem set_natCast (bs : BitSet) (q : ℕ) (b : Bool) :
    ∃ bs', bs.set (q : Int) b = .ok bs' ∧
      ∀ p, bs'.bits.testBit p = if p = q then b else bs.bits.testBit p := by
  simp only [set, Int.natCast_nonneg, if_true, Int.toNat_natCast]
  refine ⟨_, rfl, fun p => ?_⟩
  by_cases hb : bs.bits.testBit q = b
  · rw [if_pos hb]
    split
    · rename_i hp
      rw [hp, hb]
    · rfl
  · rw [if_neg hb]
    simp only [Nat.testBit_xor]
    by_cases hp : p = q
    · subst hp
      rw [if_pos rfl, Nat.testBit_two_pow_self]
      cases hbit : bs.bits.testBit p <;> cases b <;> simp_all
    · rw [if_neg hp, Nat.testBit_two_pow_of_ne (Ne.symm hp), Bool.xor_false]

end BitSet

/-! ### Hash maps -/

/-- `java.util.HashMap`, up to its iteration order, which no modelled function observes. -/
abbrev HashMap (α β : Type) := AList fun _ : α => β

/-! ### Narrowing -/

/-- An `int` with the low 32 bits of `x`. -/
def toInt (x : Int) : Int := x.bmod (2 ^ 32)

/-- The cast to `char`. -/
def toChar (x : Int) : Int := x % 2 ^ 16

/-- `x << k` on `int`: the distance is taken modulo 32. -/
def shiftLeft (x k : Int) : Int := toInt (x * 2 ^ (k % 32).toNat)

theorem toInt_of_range {x : Int} (hLow : -2 ^ 31 ≤ x) (hHigh : x < 2 ^ 31) : toInt x = x := by
  unfold toInt
  rw [Int.bmod_def]
  split <;> omega

end Java
