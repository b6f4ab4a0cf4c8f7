import Mathlib.Data.List.DropRight
import TaquinSolver.Java.Runtime

/-! Java strings as lists of characters, with the decimal texts of integers.  A character outside
the basic plane stands for its two code units: none of the operations here tells the difference,
since neither unit is a digit, a sign, a space or a control character. -/

namespace Java

abbrev Text := List Char

/-- `Integer.toString`, and a number in a string concatenation. -/
def intToText (i : Int) : Text :=
  if i < 0 then '-' :: Nat.toDigits 10 i.natAbs else Nat.toDigits 10 i.natAbs

/-- The characters that `String.trim` removes: the space and the characters before it. -/
def isBlankChar (c : Char) : Bool := c.toNat ≤ 32

/-- `String.trim`. -/
def trim (s : Text) : Text := (s.dropWhile isBlankChar).rdropWhile isBlankChar

/-- `String.split` at a character: trailing empty parts are dropped, and a text without the
character is its only part. -/
def split (sep : Char) (s : Text) : List Text :=
  if sep ∈ s then (s.splitOn sep).rdropWhile List.isEmpty else [s]

/-- The zeros of the runs of ten decimal digits in the basic plane, as `Character.digit` knows them
in Java 8. -/
def digitZeros : List ℕ :=
  [0x30, 0x660, 0x6F0, 0x7C0, 0x966, 0x9E6, 0xA66, 0xAE6, 0xB66, 0xBE6, 0xC66, 0xCE6, 0xD66, 0xE50,
    0xED0, 0xF20, 0x1040, 0x1090, 0x17E0, 0x1810, 0x1946, 0x19D0, 0x1A80, 0x1A90, 0x1B50, 0x1BB0,
    0x1C40, 0x1C50, 0xA620, 0xA8D0, 0xA900, 0xA9D0, 0xAA50, 0xABF0, 0xFF10]

/-- `Character.digit(c, 10)`. -/
def digit (c : Char) : Option ℕ :=
  digitZeros.findSome? fun z => if z ≤ c.toNat ∧ c.toNat < z + 10 then some (c.toNat - z) else none

/-- The value of a text of digits. -/
def digitsValue (ds : Text) : Option ℕ :=
  ds.foldlM (fun v c => (digit c).map (10 * v + ·)) 0

/-- A nonempty text of digits, with a value of at most `limit`. -/
def parseDigits (limit : ℕ) (ds : Text) : Result ℕ :=
  match digitsValue ds with
  | some v => if ds ≠ [] ∧ v ≤ limit then .ok v else .error .numberFormat
  | none => .error .numberFormat

/-- `Integer.parseInt`. -/
def parseInt (s : Text) : Result Int :=
  match s with
  | '-' :: ds => do return -((← parseDigits (2 ^ 31) ds : ℕ) : Int)
  | '+' :: ds => do return ((← parseDigits (2 ^ 31 - 1) ds : ℕ) : Int)
  | ds => do return ((← parseDigits (2 ^ 31 - 1) ds : ℕ) : Int)

/-! ### Decimal texts -/

theorem intToText_natCast (v : ℕ) : intToText (v : Int) = Nat.toDigits 10 v := by
  simp [intToText]

theorem intToText_ne_nil (v : ℕ) : intToText (v : Int) ≠ [] := by
  rw [intToText_natCast]
  exact Nat.toDigits_ne_nil

theorem isDigit_of_mem_intToText {v : ℕ} {c : Char} (h : c ∈ intToText (v : Int)) :
    c.isDigit = true := by
  rw [intToText_natCast] at h
  exact Nat.isDigit_of_mem_toDigits (by decide) (by decide) h

theorem isDigit_iff {c : Char} : c.isDigit = true ↔ 48 ≤ c.toNat ∧ c.toNat ≤ 57 := by
  simp only [Char.isDigit, Bool.and_eq_true, decide_eq_true_eq, ge_iff_le, UInt32.le_iff_toNat_le]
  exact Iff.rfl

theorem isBlankChar_of_isDigit {c : Char} (h : c.isDigit = true) : isBlankChar c = false := by
  have := isDigit_iff.mp h
  simp [isBlankChar]
  omega

theorem space_not_mem_intToText (i : Int) : ' ' ∉ intToText i := by
  have hDigits : ' ' ∉ Nat.toDigits 10 i.natAbs := fun h =>
    absurd (Nat.isDigit_of_mem_toDigits (by decide) (by decide) h) (by decide)
  unfold intToText
  split
  · simpa using hDigits
  · exact hDigits

theorem digit_of_isDigit {c : Char} (h : c.isDigit = true) : digit c = some (c.toNat - 48) := by
  have hc := isDigit_iff.mp h
  rw [digit, digitZeros, List.findSome?_cons, if_pos (by omega)]

theorem foldlM_digits {ds : Text} (h : ∀ c ∈ ds, c.isDigit = true) (v : ℕ) :
    ds.foldlM (fun v c => (digit c).map (10 * v + ·)) v = some (Nat.ofDigitChars 10 ds v) := by
  induction ds generalizing v with
  | nil => rfl
  | cons c ds ih =>
    rw [List.foldlM_cons, digit_of_isDigit (h c (by simp)), Nat.ofDigitChars_cons]
    exact ih (fun d hd => h d (by simp [hd])) _

theorem digitsValue_toDigits (v : ℕ) : digitsValue (Nat.toDigits 10 v) = some v := by
  rw [digitsValue, foldlM_digits fun c hc =>
    Nat.isDigit_of_mem_toDigits (by decide) (by decide) hc, Nat.ofDigitChars_ten_toDigits]

theorem intToText_natCast_inj {v w : ℕ} : intToText (v : Int) = intToText (w : Int) ↔ v = w := by
  constructor
  · intro h
    have := congrArg digitsValue h
    rw [intToText_natCast, intToText_natCast, digitsValue_toDigits, digitsValue_toDigits] at this
    exact Option.some.inj this
  · rintro rfl
    rfl

/-- A natural number that fits in an `int` is read back from its text. -/
theorem parseInt_intToText {v : ℕ} (hv : v < 2 ^ 31) : parseInt (intToText (v : Int)) = .ok v := by
  have hSign : ∀ c ∈ intToText (v : Int), c ≠ '-' ∧ c ≠ '+' := by
    intro c hc
    have := isDigit_of_mem_intToText hc
    constructor <;> rintro rfl <;> exact absurd this (by decide)
  have hDigits : parseDigits (2 ^ 31 - 1) (intToText (v : Int)) = .ok v := by
    rw [intToText_natCast, parseDigits, digitsValue_toDigits]
    simp only
    rw [if_pos ⟨Nat.toDigits_ne_nil, by omega⟩]
  unfold parseInt
  split
  · rename_i heq
    exact absurd rfl (hSign '-' (by rw [heq]; simp)).1
  · rename_i heq
    exact absurd rfl (hSign '+' (by rw [heq]; simp)).2
  · rw [hDigits]
    rfl

/-- A decimal without a sign and without a leading zero. -/
structure Canonical (s : Text) : Prop where
  ne_nil : s ≠ []
  digits : ∀ c ∈ s, c.isDigit = true
  leading : s.head? = some '0' → s = ['0']

theorem canonical_singleton {c : Char} (h : c.isDigit = true) : Canonical [c] where
  ne_nil := List.cons_ne_nil c []
  digits := by simpa using h
  leading := by simp

theorem toDigits_digit {c : Char} (h : c.isDigit = true) :
    Nat.toDigits 10 (c.toNat - 48) = [c] := by
  have hc := isDigit_iff.mp h
  rw [Nat.toDigits_of_lt_base (by omega)]
  have hChar : ∀ d < 10, (Nat.digitChar d).toNat = 48 + d := by decide
  have := hChar (c.toNat - 48) (by omega)
  rw [List.cons.injEq]
  exact ⟨Char.toNat_inj.mp (by omega), rfl⟩

/-- A canonical decimal is the text of its value. -/
theorem Canonical.toDigits_eq {s : Text} (h : Canonical s) :
    Nat.toDigits 10 (Nat.ofDigitChars 10 s 0) = s := by
  induction s using List.reverseRecOn with
  | nil => exact absurd rfl h.ne_nil
  | append_singleton ds c ih =>
    have hc : c.isDigit = true := h.digits c (by simp)
    have hLast : (c.toNat - 48) < 10 := by
      have := isDigit_iff.mp hc
      omega
    rcases ds with _ | ⟨d, ds⟩
    · rw [List.nil_append, Nat.ofDigitChars_cons, Nat.ofDigitChars_nil, Nat.mul_zero, Nat.zero_add]
      exact toDigits_digit hc
    · have hLead : d ≠ '0' := by
        rintro rfl
        have := h.leading rfl
        simp at this
      have hFront : Canonical (d :: ds) :=
        ⟨List.cons_ne_nil d ds, fun e he => h.digits e (List.mem_append_left _ he),
          fun h0 => absurd (Option.some.inj h0) hLead⟩
      have hDigits := ih hFront
      have hPos : 0 < Nat.ofDigitChars 10 (d :: ds) 0 := by
        rw [Nat.pos_iff_ne_zero]
        intro h0
        rw [h0, Nat.toDigits_zero] at hDigits
        exact hLead (List.cons.inj hDigits).1.symm
      rw [Nat.ofDigitChars_append, Nat.ofDigitChars_cons, Nat.ofDigitChars_nil,
        show c.toNat - '0'.toNat = c.toNat - 48 from rfl,
        ← Nat.toDigits_append_toDigits (by decide) hPos hLast, hDigits, toDigits_digit hc]

theorem Canonical.eq_intToText {s : Text} (h : Canonical s) {v : ℕ} (hv : digitsValue s = some v) :
    s = intToText (v : Int) := by
  rw [digitsValue, foldlM_digits h.digits] at hv
  rw [intToText_natCast, ← Option.some.inj hv, h.toDigits_eq]

/-! ### Tokens -/

/-- The texts of numbers separated by single spaces. -/
def tokens (l : List ℕ) : Text := [' '].intercalate (l.map fun v : ℕ => intToText v)

/-- Texts of canonical decimals are the texts of numbers. -/
theorem exists_numbers {m : ℕ} {ts : List Text}
    (h : ∀ t ∈ ts, Canonical t ∧ ∃ v, digitsValue t = some v ∧ v < m) :
    ∃ l : List ℕ, ts = l.map (fun v : ℕ => intToText v) ∧ ∀ v ∈ l, v < m := by
  induction ts with
  | nil => exact ⟨[], rfl, by simp⟩
  | cons t ts ih =>
    obtain ⟨hCanonical, v, hv, hLt⟩ := h t (by simp)
    obtain ⟨l, hl, hAll⟩ := ih fun t ht => h t (by simp [ht])
    refine ⟨v :: l, ?_, ?_⟩
    · rw [List.map_cons, hl, hCanonical.eq_intToText hv]
    · exact List.forall_mem_cons.mpr ⟨hLt, hAll⟩

theorem split_tokens {l : List ℕ} (hl : l ≠ []) :
    split ' ' (tokens l) = l.map fun v : ℕ => intToText v := by
  have hSplit : (tokens l).splitOn ' ' = l.map fun v : ℕ => intToText v := by
    apply List.splitOn_intercalate
    · intro s hs
      obtain ⟨v, -, rfl⟩ := List.mem_map.mp hs
      exact space_not_mem_intToText v
    · simpa using hl
  unfold split
  split
  · rw [hSplit, List.rdropWhile_eq_self_iff]
    intro hne hEmpty
    obtain ⟨v, -, hv⟩ := List.mem_map.mp (List.getLast_mem hne)
    rw [← hv, List.isEmpty_iff] at hEmpty
    exact intToText_ne_nil v hEmpty
  · rename_i hno
    rw [← hSplit, List.splitOn_eq_singleton hno]

/-- The texts of numbers, each after a space. -/
def spaced (l : List ℕ) : Text := l.flatMap fun v : ℕ => ' ' :: intToText v

theorem tokens_cons (v : ℕ) (l : List ℕ) : tokens (v :: l) = intToText v ++ spaced l := by
  induction l generalizing v with
  | nil => simp [tokens, spaced]
  | cons w l ih =>
    have h : tokens (v :: w :: l) = intToText v ++ ' ' :: tokens (w :: l) := by
      simp [tokens, List.intercalate]
    rw [h, ih]
    simp [spaced]

theorem isDigit_getLast_spaced {l : List ℕ} (hl : spaced l ≠ []) :
    ((spaced l).getLast hl).isDigit = true := by
  obtain ⟨l, v, rfl⟩ := (List.eq_nil_or_concat l).resolve_left fun h => hl (by rw [h]; rfl)
  have hEq : spaced (l ++ [v]) = (spaced l ++ [' ']) ++ intToText v := by simp [spaced]
  simp only [List.concat_eq_append, hEq]
  rw [List.getLast_append_of_right_ne_nil _ _ (intToText_ne_nil v)]
  exact isDigit_of_mem_intToText (List.getLast_mem _)

/-- Trimming takes the first space away. -/
theorem trim_spaced {l : List ℕ} (hl : l ≠ []) : trim (spaced l) = tokens l := by
  obtain ⟨v, l, rfl⟩ := List.exists_cons_of_ne_nil hl
  obtain ⟨c, ds, hText⟩ := List.exists_cons_of_ne_nil (intToText_ne_nil v)
  have hc : c.isDigit = true := isDigit_of_mem_intToText (v := v) (by rw [hText]; simp)
  have hEq : spaced (v :: l) = ' ' :: tokens (v :: l) := by
    rw [tokens_cons]
    rfl
  have hHead : tokens (v :: l) = c :: (ds ++ spaced l) := by
    rw [tokens_cons, hText]
    rfl
  have hLast : ∀ h, ((tokens (v :: l)).getLast h).isDigit = true := by
    intro h
    have hSpaced : spaced (v :: l) ≠ [] := by
      rw [hEq]
      exact List.cons_ne_nil _ _
    have := isDigit_getLast_spaced hSpaced
    simp only [hEq] at this
    rwa [List.getLast_cons h] at this
  rw [trim, hEq, List.dropWhile_cons_of_pos (by decide)]
  rw [show (tokens (v :: l)).dropWhile isBlankChar = tokens (v :: l) by
    rw [hHead, List.dropWhile_cons_of_neg (by rw [isBlankChar_of_isDigit hc]; decide)]]
  rw [List.rdropWhile_eq_self_iff]
  intro h
  rw [isBlankChar_of_isDigit (hLast h)]
  decide

end Java
