import TaquinSolver.Rendering
import TaquinSolver.Solver

/-! What `convertToStringtTBitset` makes of any text.  Token `p` is stored in cell `p` modulo
`2 ^ nbits`, a cell without a token is 0, and a token without a cell has to be a number and is
ignored.  So a text is the text of a board, token by token, when there are as many tokens as cells
and each is a number that fits, and only then (`accepted_text`). -/

namespace TaquinSolver

open Java Sliding Search Search.Bfs

variable {n w N : ℕ} {bs : BitSet}

/-- A position after the last cell is ignored: all its bits have negative indices. -/
theorem setValueBS_beyond {p : ℕ} (bs : BitSet) (hp : N ≤ p) (v : ℤ) :
    Utils.setValueBS p w (w * N : ℕ) bs v = .ok bs := by
  rw [Utils.setValueBS, Int.toNat_natCast]
  cases w with
  | zero => rfl
  | succ w =>
    have hMul : (w + 1) * N ≤ p * (w + 1) := by
      rw [Nat.mul_comm]
      exact Nat.mul_le_mul_right _ hp
    have hNeg : ¬(0 : ℤ) ≤ ((w + 1) * N : ℕ) - p * (w + 1 : ℕ) - 1 := by
      rw [← Nat.cast_mul]
      omega
    rw [Utils.writeBits, if_neg hNeg]

/-- `setValueBS` at any position. -/
theorem setValueBS_any (hb : Bounded (w * N) bs) (p : ℕ) (v : ℤ) :
    ∃ bs', Utils.setValueBS p w (w * N : ℕ) bs v = .ok bs' ∧ Bounded (w * N) bs' ∧
      ∀ q < N, cellValue w N bs' q =
        if q = p then (v % 2 ^ w).toNat else cellValue w N bs q := by
  rcases Nat.lt_or_ge p N with hp | hp
  · exact setValueBS_emod hb hp v
  · refine ⟨bs, setValueBS_beyond bs hp v, hb, fun q hq => ?_⟩
    rw [if_neg (by omega)]

/-- Tokens that are numbers are stored one after the other. -/
theorem storeTokens_values {s : List Text} {values : List ℤ}
    (hParse : s.mapM parseInt = .ok values) (hb : Bounded (w * N) bs) (i : ℕ) :
    ∃ bs', Utils.storeTokens w (w * N : ℕ) s i bs = .ok bs' ∧ Bounded (w * N) bs' ∧
      ∀ q < N, cellValue w N bs' q = if i ≤ q ∧ q < i + values.length then
        (values.getD (q - i) 0 % 2 ^ w).toNat else cellValue w N bs q := by
  induction s generalizing values bs i with
  | nil =>
    cases hParse
    exact ⟨bs, rfl, hb, fun q _ => by rw [if_neg (by simp)]⟩
  | cons c s ih =>
    rw [List.mapM_cons] at hParse
    obtain ⟨v, hc, hRest⟩ := Result.bind_eq_ok.mp hParse
    obtain ⟨vs, hs, hEq⟩ := Result.bind_eq_ok.mp hRest
    cases hEq
    obtain ⟨bs1, hSet, hb1, hv1⟩ := setValueBS_any hb i v
    obtain ⟨bs', hStore, hb', hv'⟩ := ih hs hb1 (i + 1)
    refine ⟨bs', ?_, hb', fun q hq => ?_⟩
    · rw [Utils.storeTokens, hc, Result.ok_bind, hSet, Result.ok_bind]
      exact_mod_cast hStore
    · rw [hv' q hq, hv1 q hq, List.length_cons]
      rcases Nat.lt_trichotomy q i with hqi | rfl | hqi
      · rw [if_neg (by omega), if_neg (by omega), if_neg (by omega)]
      · rw [if_neg (by omega), if_pos rfl, if_pos (by omega), Nat.sub_self, List.getD_cons_zero]
      · obtain ⟨k, rfl⟩ : ∃ k, q = i + 1 + k := ⟨q - (i + 1), by omega⟩
        rw [show i + 1 + k - i = k + 1 by omega, Nat.add_sub_cancel_left, List.getD_cons_succ,
          if_neg (show ¬i + 1 + k = i by omega)]
        by_cases hk : k < vs.length
        · rw [if_pos (by omega), if_pos (by omega)]
        · rw [if_neg (by omega), if_neg (by omega)]

/-- Every token that is stored is a number. -/
theorem mapM_parseInt_of_storeTokens {s : List Text} {i : ℤ} {nbits sizeBS : ℤ} {bs' : BitSet}
    (h : Utils.storeTokens nbits sizeBS s i bs = .ok bs') :
    ∃ values, s.mapM parseInt = .ok values := by
  induction s generalizing i bs with
  | nil => exact ⟨[], rfl⟩
  | cons c s ih =>
    obtain ⟨v, hc, hRest⟩ := Result.bind_eq_ok.mp h
    obtain ⟨bs1, -, hRest⟩ := Result.bind_eq_ok.mp hRest
    obtain ⟨vs, hs⟩ := ih hRest
    refine ⟨v :: vs, ?_⟩
    rw [List.mapM_cons, hc, hs]
    rfl

/-- The cells that a text is read as. -/
theorem convert_cells {size : ℤ} {s : Text}
    (h : Utils.convertToStringtTBitset size w (w * N : ℕ) s = .ok bs) :
    ∃ values : List ℤ, (split ' ' s).mapM parseInt = .ok values ∧ Bounded (w * N) bs ∧
      ∀ q < N, (cellValue w N bs q : ℤ) = values.getD q 0 % 2 ^ w := by
  obtain ⟨values, hParse⟩ := mapM_parseInt_of_storeTokens h
  obtain ⟨bs', hStore, hb, hv⟩ := storeTokens_values hParse (bounded_empty (w * N)) 0
  rw [Utils.convertToStringtTBitset] at h
  obtain rfl : bs = bs' := Except.ok.inj (h.symm.trans hStore)
  refine ⟨values, hParse, hb, fun q hq => ?_⟩
  have hNonneg := Int.emod_nonneg (values.getD q 0) (show (2 : ℤ) ^ w ≠ 0 by positivity)
  rw [hv q hq, Nat.sub_zero, Nat.zero_add]
  split
  · exact Int.toNat_of_nonneg hNonneg
  · rename_i hOut
    rw [List.getD_eq_default _ _ (by omega), Int.zero_emod]
    simp [cellValue, BitSet.empty]

/-! ### Texts of boards -/

/-- The text `s` is the text of the packed board `bs`: it has a token for each cell, and each token
is the number of its cell. -/
def Spells (n : ℕ) (nbits sizeBS : ℤ) (s : Text) (bs : BitSet) : Prop :=
  (split ' ' s).length = n * n ∧
    ∀ p < n * n, ∃ t v, (split ' ' s)[p]? = some t ∧ parseInt t = .ok v ∧
      Utils.getValueBS p nbits sizeBS bs = .ok v

theorem getElem?_mapM {s : List Text} {values : List ℤ} (h : s.mapM parseInt = .ok values) :
    values.length = s.length ∧
      ∀ (p : ℕ) t, s[p]? = some t → ∃ v, parseInt t = .ok v ∧ values[p]? = some v := by
  induction s generalizing values with
  | nil =>
    cases h
    exact ⟨rfl, by simp⟩
  | cons c s ih =>
    rw [List.mapM_cons] at h
    obtain ⟨v, hc, hRest⟩ := Result.bind_eq_ok.mp h
    obtain ⟨vs, hs, hEq⟩ := Result.bind_eq_ok.mp hRest
    cases hEq
    obtain ⟨hLength, hTokens⟩ := ih hs
    refine ⟨by rw [List.length_cons, List.length_cons, hLength], fun p t hp => ?_⟩
    cases p with
    | zero =>
      cases hp
      exact ⟨v, hc, rfl⟩
    | succ p => exact hTokens p t hp

/-- A text is the text of what it is read as when it has a token for each cell and all its numbers
fit, and only then. -/
theorem spells_iff {s : Text} {values : List ℤ} (hParse : (split ' ' s).mapM parseInt = .ok values)
    (hv : ∀ q < n * n, (cellValue w (n * n) bs q : ℤ) = values.getD q 0 % 2 ^ w) :
    Spells n w (w * (n * n) : ℕ) s bs ↔
      values.length = n * n ∧ ∀ v ∈ values, 0 ≤ v ∧ v < 2 ^ w := by
  obtain ⟨hLength, hTokens⟩ := getElem?_mapM hParse
  have hPow : (0 : ℤ) < 2 ^ w := by positivity
  constructor
  · rintro ⟨hCount, hCells⟩
    refine ⟨hLength.trans hCount, fun v hMem => ?_⟩
    obtain ⟨p, hp⟩ := List.getElem?_of_mem hMem
    have hLt := (List.getElem?_eq_some_iff.mp hp).1
    rw [hLength, hCount] at hLt
    obtain ⟨t, v', ht, hv', hCell⟩ := hCells p hLt
    obtain ⟨v'', hParsed, hp'⟩ := hTokens p t ht
    obtain rfl : v' = v'' := Except.ok.inj (hv'.symm.trans hParsed)
    obtain rfl : v = v' := Option.some.inj (hp.symm.trans hp')
    rw [getValueBS_eq w bs hLt, hv p hLt, List.getD_eq_getElem?_getD, hp] at hCell
    have hFit : v % 2 ^ w = v := Except.ok.inj hCell
    rw [← hFit]
    exact ⟨Int.emod_nonneg v hPow.ne', Int.emod_lt_of_pos v hPow⟩
  · rintro ⟨hCount, hFit⟩
    refine ⟨hLength.symm.trans hCount, fun p hp => ?_⟩
    have ht := List.getElem?_eq_getElem (show p < (split ' ' s).length by omega)
    obtain ⟨v, hParsed, hpv⟩ := hTokens p _ ht
    obtain ⟨h0, hLt⟩ := hFit v (List.mem_of_getElem? hpv)
    refine ⟨_, v, ht, hParsed, ?_⟩
    rw [getValueBS_eq w bs hp, hv p hp, List.getD_eq_getElem?_getD, hpv]
    exact congrArg Except.ok (Int.emod_eq_of_lt h0 hLt)

/-- At most one cell of a board is 0, so at most one token is missing. -/
theorem length_of_shows {b : Board n} {values : List ℤ} (hb : Shows w (w * (n * n) : ℕ) bs b)
    (hv : ∀ q < n * n, (cellValue w (n * n) bs q : ℤ) = values.getD q 0 % 2 ^ w) :
    n * n ≤ values.length + 1 := by
  by_contra hShort
  have hZero : ∀ c : Cell n, values.length ≤ index c → IsBlank b c := by
    intro c hc
    have := hv _ (index_lt c)
    rw [List.getD_eq_default _ _ hc, Int.zero_emod, (shows_iff.mp hb).2 c] at this
    exact_mod_cast this
  obtain ⟨c, hc⟩ := exists_index (n := n) (p := values.length) (by omega)
  obtain ⟨c', hc'⟩ := exists_index (n := n) (p := values.length + 1) (by omega)
  have hSame := (hZero c (by omega)).unique (hZero c' (by omega))
  rw [hSame] at hc
  omega

theorem mem_ids_goal_two {hn : 0 < 2} {num : Discovery (Board 2)} {g : Graph}
    (h : Solved hn num g) : ⟨108⟩ ∈ g.ids :=
  (h.mem_ids_iff shows_goal_two).mpr (List.mem_of_getElem? h.complete.seen_zero)

/-- A text that is taken for a board has only numbers as its tokens, and the board has them in its
cells modulo `2 ^ nbits`, with 0 for one that is missing and without those beyond the last cell.  It
is the text of that board exactly when there is a token for each cell and all its numbers fit. -/
theorem accepted_text (pq : PriorityQueue TripleComparator.compare) (n : ℕ) (hn : 2 ≤ n)
    (hn' : n ≤ 256) :
    ∃ g, Graph.new pq n = .ok g ∧ ∀ (s : Text) (bs : BitSet),
      Utils.convertToStringtTBitset n g.getNbits g.getSizeBS s = .ok bs → bs ∈ g.ids →
      ∃ values, (split ' ' s).mapM parseInt = .ok values ∧ n * n ≤ values.length + 1 ∧
        (∀ p < n * n, Utils.getValueBS p g.getNbits g.getSizeBS bs =
          .ok (values.getD p 0 % 2 ^ g.getNbits.toNat)) ∧
        (Spells n g.getNbits g.getSizeBS s bs ↔
          values.length = n * n ∧ ∀ v ∈ values, 0 ≤ v ∧ v < 2 ^ g.getNbits.toNat) := by
  have hPos : 0 < n := by omega
  obtain ⟨t, s, last, -, -, -, -, hSolved⟩ := new_solved hPos hn'
  obtain ⟨g, hNew, hg⟩ := hSolved pq
  refine ⟨g, hNew, fun s bs hConvert hMem => ?_⟩
  obtain ⟨b, -, hShows⟩ := (hg.mem_ids_iff_solvable hg.complete bs).mp hMem
  rw [Graph.getNbits, Graph.getSizeBS, hg.nbits, hg.sizeBS] at hConvert hShows
  rw [Graph.getNbits, Graph.getSizeBS, hg.nbits, hg.sizeBS, Int.toNat_natCast]
  obtain ⟨values, hParse, -, hv⟩ := convert_cells hConvert
  refine ⟨values, hParse, length_of_shows hShows hv, fun p hp => ?_, spells_iff hParse hv⟩
  rw [getValueBS_eq _ bs hp, hv p hp]

/-- The text of the goal of size 2. -/
theorem accepted_text_two :
    ∃ g, Graph.new tripleQueue (2 : ℕ) = .ok g ∧ ∃ values,
      (split ' ' ['1', ' ', '2', ' ', '3', ' ', '0']).mapM parseInt = .ok values ∧
        2 * 2 ≤ values.length + 1 ∧
        (∀ p : ℕ, p < 2 * 2 → Utils.getValueBS p g.getNbits g.getSizeBS ⟨108⟩ =
          .ok (values.getD p 0 % 2 ^ g.getNbits.toNat)) ∧
        (Spells 2 g.getNbits g.getSizeBS ['1', ' ', '2', ' ', '3', ' ', '0'] ⟨108⟩ ↔
          values.length = 2 * 2 ∧ ∀ v ∈ values, 0 ≤ v ∧ v < 2 ^ g.getNbits.toNat) := by
  obtain ⟨g, hNew, hText⟩ := accepted_text tripleQueue 2 (by decide) (by decide)
  obtain ⟨k, -, hg⟩ := solved_of_new (by decide) (by decide) hNew
  refine ⟨g, hNew, hText _ ⟨108⟩ ?_ (mem_ids_goal_two hg)⟩
  rw [Graph.getNbits, Graph.getSizeBS, hg.nbits, hg.sizeBS]
  decide

/-- Texts with a missing token, an extra token, a negative number and a number that does not fit
are taken for the goal. -/
theorem accepted_malformed :
    ∃ g, Graph.new tripleQueue (2 : ℕ) = .ok g ∧
      ∀ s ∈ [['1', ' ', '2', ' ', '3'], ['1', ' ', '2', ' ', '3', ' ', '0', ' ', '7'],
          ['1', ' ', '-', '2', ' ', '3', ' ', '0'], ['5', ' ', '2', ' ', '3', ' ', '0']],
        Utils.convertToStringtTBitset (2 : ℕ) g.getNbits g.getSizeBS s = .ok ⟨108⟩ ∧
          ⟨108⟩ ∈ g.ids ∧ ¬Spells 2 g.getNbits g.getSizeBS s ⟨108⟩ := by
  have hPos : 0 < 2 := by decide
  obtain ⟨t, s, last, -, -, -, -, hSolved⟩ := new_solved hPos (by decide)
  obtain ⟨g, hNew, hg⟩ := hSolved tripleQueue
  have hMem := mem_ids_goal_two hg
  refine ⟨g, hNew, ?_⟩
  rw [Graph.getNbits, Graph.getSizeBS, hg.nbits, hg.sizeBS, show width 2 = 2 by decide]
  have hText : ∀ (s : Text) (values : List ℤ),
      Utils.convertToStringtTBitset (2 : ℕ) (2 : ℕ) (2 * (2 * 2) : ℕ) s = .ok ⟨108⟩ ∧
        (split ' ' s).mapM parseInt = .ok values ∧
        (∀ q < 2 * 2, (cellValue 2 (2 * 2) ⟨108⟩ q : ℤ) = values.getD q 0 % 2 ^ 2) ∧
        ¬(values.length = 2 * 2 ∧ ∀ v ∈ values, 0 ≤ v ∧ v < 2 ^ 2) →
      Utils.convertToStringtTBitset (2 : ℕ) (2 : ℕ) (2 * (2 * 2) : ℕ) s = .ok ⟨108⟩ ∧
        ⟨108⟩ ∈ g.ids ∧ ¬Spells 2 (2 : ℕ) (2 * (2 * 2) : ℕ) s ⟨108⟩ := by
    rintro s values ⟨hConvert, hParse, hv, hNot⟩
    exact ⟨hConvert, hMem, (spells_iff hParse hv).not.mpr hNot⟩
  intro s hs
  simp only [List.mem_cons, List.not_mem_nil, or_false] at hs
  rcases hs with rfl | rfl | rfl | rfl
  · exact hText _ [1, 2, 3] (by decide)
  · exact hText _ [1, 2, 3, 0, 7] (by decide)
  · exact hText _ [1, -2, 3, 0] (by decide)
  · exact hText _ [5, 2, 3, 0] (by decide)

end TaquinSolver
