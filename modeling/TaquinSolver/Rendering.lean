import TaquinSolver.Packed

/-! The texts of boards.  `bitSetToString` renders the cells of a packed board row by row, and
`convertToStringtTBitset` stores the numbers of such a text in a packed board, so that a rendered
board is read back (`convert_rowMajor`). -/

namespace TaquinSolver

open Java Sliding

/-- The numbers of a board, row by row. -/
def rowMajor {n : ℕ} (b : Board n) : List ℕ :=
  List.ofFn fun p : Fin (n * n) => (b (finProdFinEquiv.symm p) : ℕ)

variable {n w N : ℕ}

theorem length_rowMajor (b : Board n) : (rowMajor b).length = n * n := List.length_ofFn

theorem index_finProdFinEquiv_symm (p : Fin (n * n)) : index (finProdFinEquiv.symm p) = p := by
  have h := congrArg Fin.val (finProdFinEquiv.apply_symm_apply p)
  rw [finProdFinEquiv_apply_val, Nat.add_comm, Nat.mul_comm n] at h
  exact h

theorem getElem?_rowMajor (b : Board n) (c : Cell n) : (rowMajor b)[index c]? = some (b c : ℕ) := by
  have hc := index_lt c
  rw [rowMajor, List.getElem?_ofFn, dif_pos hc]
  rw [index_injective (index_finProdFinEquiv_symm ⟨index c, hc⟩)]

/-- The cells of a packed board, in order, are the numbers of the board that it shows. -/
theorem Shows.rowMajor_eq {bs : BitSet} {b : Board n} (h : Shows w (w * (n * n) : ℕ) bs b) :
    rowMajor b = (List.range (n * n)).map (cellValue w (n * n) bs) := by
  apply List.ext_getElem?
  intro p
  rcases Nat.lt_or_ge p (n * n) with hp | hp
  · obtain ⟨c, rfl⟩ := exists_index hp
    rw [getElem?_rowMajor, List.getElem?_map, List.getElem?_range hp, ← (shows_iff.mp h).2 c]
    rfl
  · rw [List.getElem?_eq_none (by rwa [length_rowMajor]), List.getElem?_eq_none (by simpa using hp)]

/-! ### Rendering -/

theorem appendCells_eq (bs : BitSet) (row : Text) {count k : ℕ} (hk : k + count ≤ N) :
    Utils.appendCells w (w * N : ℕ) bs count (row, k) =
      .ok (row ++ spaced ((List.range' k count).map (cellValue w N bs)),
        ((k + count : ℕ) : ℤ)) := by
  induction count generalizing k row with
  | zero => simp [Utils.appendCells, spaced]
  | succ count ih =>
    rw [Utils.appendCells, getValueBS_eq w bs (by omega), Result.ok_bind]
    have := ih (row ++ ' ' :: intToText (cellValue w N bs k : ℤ)) (k := k + 1) (by omega)
    push_cast at this ⊢
    rw [this, List.range'_succ, List.map_cons]
    simp only [spaced, List.flatMap_cons, List.append_assoc]
    congr 2
    omega

theorem appendRows_eq (bs : BitSet) (m : Text) {count k : ℕ} (hk : k + count * n ≤ N) :
    Utils.appendRows n w (w * N : ℕ) bs count (m, k) =
      .ok (m ++ spaced ((List.range' k (count * n)).map (cellValue w N bs)),
        ((k + count * n : ℕ) : ℤ)) := by
  induction count generalizing k m with
  | zero => simp [Utils.appendRows, spaced]
  | succ count ih =>
    have hSplit : (count + 1) * n = n + count * n := by ring
    rw [hSplit] at hk ⊢
    rw [Utils.appendRows, Int.toNat_natCast, appendCells_eq bs [] (by omega), Result.ok_bind]
    simp only [List.nil_append]
    rw [ih _ (by omega), ← List.range'_append_1, List.map_append]
    simp [spaced, Nat.add_assoc]

/-- `bitSetToString` renders the cells row by row, separated by spaces. -/
theorem bitSetToString_cells (hn : 0 < n) (w : ℕ) (bs : BitSet) :
    Utils.bitSetToString n w (w * (n * n) : ℕ) bs =
      .ok (tokens ((List.range (n * n)).map (cellValue w (n * n) bs))) := by
  have hne : (List.range (n * n)).map (cellValue w (n * n) bs) ≠ [] := by
    rw [← List.length_pos_iff, List.length_map, List.length_range]
    exact Nat.mul_pos hn hn
  have hRows := appendRows_eq (w := w) bs [] (k := 0) (by omega : 0 + n * n ≤ n * n)
  rw [Utils.bitSetToString, Int.toNat_natCast]
  rw [Nat.cast_zero] at hRows
  rw [hRows, Result.ok_bind, ← List.range_eq_range']
  simp only [List.nil_append, Result.pure_eq]
  rw [trim_spaced hne]

theorem bitSetToString_eq (hn : 0 < n) {bs : BitSet} {b : Board n}
    (h : Shows w (w * (n * n) : ℕ) bs b) :
    Utils.bitSetToString n w (w * (n * n) : ℕ) bs = .ok (tokens (rowMajor b)) := by
  rw [bitSetToString_cells hn, h.rowMajor_eq]

/-! ### Reading -/

theorem storeTokens_eq {l : List ℕ} (hValue : ∀ v ∈ l, v < 2 ^ w ∧ v < 2 ^ 31) {i : ℕ}
    (hi : i + l.length ≤ N) {bs : BitSet} (hb : Bounded (w * N) bs) :
    ∃ bs', Utils.storeTokens w (w * N : ℕ) (l.map fun v : ℕ => intToText v) i bs = .ok bs' ∧
      Bounded (w * N) bs' ∧ (∀ q < i, cellValue w N bs' q = cellValue w N bs q) ∧
      ∀ q, ∀ v ∈ l[q]?, cellValue w N bs' (i + q) = v := by
  induction l generalizing i bs with
  | nil => exact ⟨bs, rfl, hb, fun _ _ => rfl, by simp⟩
  | cons v l ih =>
    rw [List.length_cons] at hi
    obtain ⟨hw, h31⟩ := hValue v (by simp)
    obtain ⟨bs1, hSet, hb1, hv1⟩ := setValueBS_eq hb (show i < N by omega) hw
    obtain ⟨bs', hRest, hb', hOld, hNew⟩ :=
      ih (fun u hu => hValue u (by simp [hu])) (i := i + 1) (by omega) hb1
    refine ⟨bs', ?_, hb', fun q hq => ?_, fun q u hu => ?_⟩
    · rw [List.map_cons, Utils.storeTokens, parseInt_intToText h31, Result.ok_bind, hSet,
        Result.ok_bind]
      exact_mod_cast hRest
    · rw [hOld q (by omega), hv1 q (by omega), if_neg (by omega)]
    · cases q with
      | zero =>
        simp only [List.getElem?_cons_zero, Option.mem_def, Option.some.injEq] at hu
        rw [Nat.add_zero, hOld i (by omega), hv1 i (by omega), if_pos rfl, hu]
      | succ q =>
        rw [List.getElem?_cons_succ] at hu
        rw [show i + (q + 1) = i + 1 + q by omega]
        exact hNew q u hu

/-- A text of as many numbers as there are cells, each of which fits, is read cell by cell. -/
theorem convert_tokens (hn : 0 < n) {l : List ℕ} (hLength : l.length = n * n)
    (hValue : ∀ v ∈ l, v < 2 ^ w ∧ v < 2 ^ 31) (size : ℤ) :
    ∃ bs, Utils.convertToStringtTBitset size w (w * (n * n) : ℕ) (tokens l) = .ok bs ∧
      Bounded (w * (n * n)) bs ∧ ∀ p v, l[p]? = some v → cellValue w (n * n) bs p = v := by
  have hne : l ≠ [] := by
    rw [← List.length_pos_iff, hLength]
    exact Nat.mul_pos hn hn
  obtain ⟨bs, hRun, hb, -, hv⟩ :=
    storeTokens_eq hValue (i := 0) (N := n * n) (by rw [hLength, Nat.zero_add]) (bounded_empty _)
  refine ⟨bs, ?_, hb, fun p v hp => ?_⟩
  · rw [Utils.convertToStringtTBitset, split_tokens hne]
    exact hRun
  · have := hv p v hp
    rwa [Nat.zero_add] at this

/-- The cells hold the numbers that were stored, in order. -/
theorem list_eq_cells {l : List ℕ} {bs : BitSet} (hLength : l.length = N)
    (hv : ∀ p v, l[p]? = some v → cellValue w N bs p = v) :
    l = (List.range N).map (cellValue w N bs) := by
  apply List.ext_getElem (by simp [hLength])
  intro p hp _
  rw [List.getElem_map, List.getElem_range, hv p _ (List.getElem?_eq_getElem hp)]

/-- The rendering of a board is read as a packed board that shows it. -/
theorem convert_rowMajor (hn : 0 < n) (hn' : n ≤ 256) (b : Board n) (size : ℤ) :
    ∃ bs, Utils.convertToStringtTBitset size (width n) (width n * (n * n) : ℕ)
        (tokens (rowMajor b)) = .ok bs ∧ Shows (width n) (width n * (n * n) : ℕ) bs b := by
  have hValue : ∀ v ∈ rowMajor b, v < 2 ^ width n ∧ v < 2 ^ 31 := by
    intro v hv
    obtain ⟨p, rfl⟩ := List.mem_ofFn.mp hv
    have hLt := (b (finProdFinEquiv.symm p)).isLt
    have hFit := hLt.trans_le (square_le_two_pow n)
    exact ⟨hFit, hFit.trans_le (two_pow_width_le hn')⟩
  obtain ⟨bs, hRun, hb, hv⟩ := convert_tokens hn (length_rowMajor b) hValue size
  exact ⟨bs, hRun, shows_iff.mpr ⟨hb, fun c => hv (index c) (b c) (getElem?_rowMajor b c)⟩⟩

/-! ### Round trips -/

/-- Reading is the inverse of rendering on packed boards, and rendering is the inverse of reading on
texts of canonical decimals that fit. -/
theorem text_round_trip (n : ℕ) (hn : 1 ≤ n) (hn' : n ≤ 256) :
    ∃ nbits maskBits : ℤ, Taquin.nBits n = .ok (nbits, maskBits) ∧
      (∀ bs : BitSet, (∀ x : ℕ, nbits * n * n ≤ x → bs.get x = .ok false) →
        ∃ s, Utils.bitSetToString n nbits (nbits * n * n) bs = .ok s ∧
          Utils.convertToStringtTBitset n nbits (nbits * n * n) s = .ok bs) ∧
      ∀ ts : List Text, ts.length = n * n →
        (∀ t ∈ ts, Canonical t ∧ ∃ v, digitsValue t = some v ∧ v < 2 ^ nbits.toNat) →
        ∃ bs, Utils.convertToStringtTBitset n nbits (nbits * n * n) ([' '].intercalate ts)
            = .ok bs ∧
          Utils.bitSetToString n nbits (nbits * n * n) bs = .ok ([' '].intercalate ts) := by
  refine ⟨_, _, nBits_eq hn', ?_⟩
  simp only [sizeBS_eq, Int.toNat_natCast, bounded_iff]
  refine ⟨fun bs hb => ?packed, fun ts hLength hCanonical => ?text⟩
  case packed =>
    obtain ⟨bs', hRead, hb', hv⟩ := convert_tokens hn
      (l := (List.range (n * n)).map (cellValue (width n) (n * n) bs)) (by simp)
      (fun v hv => by
        obtain ⟨p, -, rfl⟩ := List.mem_map.mp hv
        have hFit := cellValue_lt (width n) (n * n) bs p
        exact ⟨hFit, hFit.trans_le (two_pow_width_le hn')⟩) n
    refine ⟨_, bitSetToString_cells hn _ bs, ?_⟩
    rw [hRead, eq_of_cellValue hb' hb fun p hp => hv p _ (by simp [hp])]
  case text =>
    obtain ⟨l, rfl, hFit⟩ := exists_numbers hCanonical
    rw [List.length_map] at hLength
    obtain ⟨bs, hRead, hb, hv⟩ := convert_tokens hn hLength
      (fun v hv => ⟨hFit v hv, (hFit v hv).trans_le (two_pow_width_le hn')⟩) n
    refine ⟨bs, hRead, ?_⟩
    rw [bitSetToString_cells hn, ← tokens, ← list_eq_cells hLength hv]

/-- The packed goal of size 2, and its text. -/
theorem text_round_trip_two :
    ∃ nbits maskBits : ℤ, Taquin.nBits (2 : ℕ) = .ok (nbits, maskBits) ∧
      (∃ s, Utils.bitSetToString (2 : ℕ) nbits (nbits * (2 : ℕ) * (2 : ℕ)) ⟨108⟩ = .ok s ∧
        Utils.convertToStringtTBitset (2 : ℕ) nbits (nbits * (2 : ℕ) * (2 : ℕ)) s =
          .ok ⟨108⟩) ∧
      ∃ bs, Utils.convertToStringtTBitset (2 : ℕ) nbits (nbits * (2 : ℕ) * (2 : ℕ))
          ([' '].intercalate [['1'], ['2'], ['3'], ['0']]) = .ok bs ∧
        Utils.bitSetToString (2 : ℕ) nbits (nbits * (2 : ℕ) * (2 : ℕ)) bs =
          .ok ([' '].intercalate [['1'], ['2'], ['3'], ['0']]) := by
  obtain ⟨nbits, maskBits, hBits, hPacked, hText⟩ := text_round_trip 2 (by decide) (by decide)
  have hSame := (nBits_eq (by decide)).symm.trans hBits
  obtain rfl : 2 = nbits := (Prod.mk.inj (Except.ok.inj hSame)).1
  refine ⟨2, maskBits, hBits, hPacked ⟨108⟩ shows_goal_two.1, hText _ rfl ?_⟩
  simp only [List.forall_mem_cons, List.not_mem_nil, false_implies, forall_const, and_true]
  exact ⟨⟨canonical_singleton rfl, 1, rfl, by decide⟩,
    ⟨canonical_singleton rfl, 2, rfl, by decide⟩,
    ⟨canonical_singleton rfl, 3, rfl, by decide⟩,
    ⟨canonical_singleton rfl, 0, rfl, by decide⟩⟩

end TaquinSolver
