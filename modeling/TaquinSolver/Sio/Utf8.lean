import TaquinSolver.Sio.Connection

/-! The texts that websocketpp takes: its table accepts the bytes of characters in UTF-8, and nothing
else. -/

namespace Sio

open Java (Text)

namespace Utf8Validator

/-- The bytes of a character in UTF-8. -/
def encodeChar (c : Char) : Text := (String.utf8EncodeChar c).map fun b => Char.ofNat b.toNat

/-- The bytes of characters in UTF-8. -/
def encode (cs : List Char) : Text := cs.flatMap encodeChar

theorem encodeChar_eq {c : Char} {n : ℕ} (h : c.toNat = n) :
    encodeChar c =
      if n ≤ 0x7F then [Char.ofNat n]
      else if n ≤ 0x7FF then [Char.ofNat (n / 64 + 0xC0), Char.ofNat (n % 64 + 0x80)]
      else if n ≤ 0xFFFF then [Char.ofNat (n / 4096 + 0xE0), Char.ofNat (n / 64 % 64 + 0x80),
        Char.ofNat (n % 64 + 0x80)]
      else [Char.ofNat (n / 262144 + 0xF0), Char.ofNat (n / 4096 % 64 + 0x80),
        Char.ofNat (n / 64 % 64 + 0x80), Char.ofNat (n % 64 + 0x80)] := by
  have hByte : ∀ {i j : ℕ}, i = j → j < 256 → Char.ofNat (UInt8.ofNat i).toNat = Char.ofNat j := by
    rintro i j rfl h
    rw [UInt8.toNat_ofNat', Nat.mod_eq_of_lt h]
  have hMax : n < 0x110000 := by
    rcases c.valid with hLow | hHigh
    · exact h ▸ hLow.trans (by decide)
    · exact h ▸ hHigh.2
  have hVal : c.val.toNat = n := h
  unfold encodeChar String.utf8EncodeChar
  simp only [hVal]
  split
  · rw [List.map_singleton, hByte rfl (by omega)]
  · split
    · simp only [List.map_cons, List.map_nil]
      rw [hByte (j := n / 64 + 0xC0) (by omega) (by omega), hByte rfl (by omega)]
    · split
      · simp only [List.map_cons, List.map_nil]
        rw [hByte (j := n / 4096 + 0xE0) (by omega) (by omega), hByte rfl (by omega),
          hByte rfl (by omega)]
      · simp only [List.map_cons, List.map_nil]
        rw [hByte (j := n / 262144 + 0xF0) (by omega) (by omega), hByte rfl (by omega),
          hByte rfl (by omega), hByte rfl (by omega)]

/-! ### The table as ranges of bytes -/

/-- Bytes that the machine takes in a state, and the state after one. -/
structure Row where
  state : ℕ
  low : ℕ
  high : ℕ
  next : ℕ
deriving DecidableEq

/-- The first bytes of characters, and those that continue one. -/
def rows : List Row :=
  [⟨accept, 0x00, 0x7F, accept⟩, ⟨accept, 0xC2, 0xDF, 2⟩, ⟨accept, 0xE0, 0xE0, 4⟩,
    ⟨accept, 0xE1, 0xEC, 3⟩, ⟨accept, 0xED, 0xED, 5⟩, ⟨accept, 0xEE, 0xEF, 3⟩,
    ⟨accept, 0xF0, 0xF0, 6⟩, ⟨accept, 0xF1, 0xF3, 7⟩, ⟨accept, 0xF4, 0xF4, 8⟩,
    ⟨2, 0x80, 0xBF, accept⟩, ⟨3, 0x80, 0xBF, 2⟩, ⟨4, 0xA0, 0xBF, 2⟩, ⟨5, 0x80, 0x9F, 2⟩,
    ⟨6, 0x90, 0xBF, 3⟩, ⟨7, 0x80, 0xBF, 3⟩, ⟨8, 0x80, 0x8F, 3⟩]

theorem decode_row : ∀ row ∈ rows, ∀ byte < 256, row.low ≤ byte ∧ byte ≤ row.high →
    decode row.state (Char.ofNat byte) = row.next := by
  decide +kernel

theorem row_of_decode : ∀ state < 9, ∀ byte < 256, decode state (Char.ofNat byte) ≠ reject →
    ∃ row ∈ rows, row.state = state ∧ row.low ≤ byte ∧ byte ≤ row.high := by
  decide +kernel

theorem row_bounds : ∀ row ∈ rows, row.high < 256 ∧ row.next < 9 ∧ row.next ≠ reject := by
  decide

theorem decodeText_row (state low high next : ℕ) (h : ⟨state, low, high, next⟩ ∈ rows) {byte : ℕ}
    (hByte : low ≤ byte ∧ byte ≤ high) (text : Text) :
    decodeText state (Char.ofNat byte :: text) = decodeText next text := by
  obtain ⟨hHigh, -, hNext⟩ := row_bounds _ h
  have hDecode := decode_row _ h byte (Nat.lt_of_le_of_lt hByte.2 hHigh) hByte
  rw [decodeText, hDecode, if_neg hNext]

/-! ### Texts in UTF-8 are taken -/

/-- The bytes of a character take the machine from the state between characters back to it. -/
theorem decodeText_encodeChar (c : Char) (text : Text) :
    decodeText accept (encodeChar c ++ text) = decodeText accept text := by
  obtain ⟨n, hn⟩ : ∃ n, c.toNat = n := ⟨_, rfl⟩
  have hValid : n < 0xD800 ∨ 0xDFFF < n ∧ n < 0x110000 := hn ▸ c.valid
  have hOne : ∀ rest, decodeText 2 (Char.ofNat (n % 64 + 0x80) :: rest) =
      decodeText accept rest := decodeText_row 2 0x80 0xBF accept (by decide) (by omega)
  have hTwo : ∀ rest, decodeText 3 (Char.ofNat (n / 64 % 64 + 0x80) :: rest) =
      decodeText 2 rest := decodeText_row 3 0x80 0xBF 2 (by decide) (by omega)
  rw [encodeChar_eq hn]
  split
  · exact decodeText_row accept 0x00 0x7F accept (by decide) (by omega) text
  split
  · exact (decodeText_row accept 0xC2 0xDF 2 (by decide) (by omega) _).trans (hOne text)
  split
  · have hTop : n / 4096 = 0 ∨ 1 ≤ n / 4096 ∧ n / 4096 ≤ 12 ∨ n / 4096 = 13 ∨ 14 ≤ n / 4096 := by
      omega
    rcases hTop with hTop | hTop | hTop | hTop
    · exact (decodeText_row accept 0xE0 0xE0 4 (by decide) (by omega) _).trans
        ((decodeText_row 4 0xA0 0xBF 2 (by decide) (by omega) _).trans (hOne text))
    · exact (decodeText_row accept 0xE1 0xEC 3 (by decide) (by omega) _).trans
        ((hTwo _).trans (hOne text))
    · exact (decodeText_row accept 0xED 0xED 5 (by decide) (by omega) _).trans
        ((decodeText_row 5 0x80 0x9F 2 (by decide) (by omega) _).trans (hOne text))
    · exact (decodeText_row accept 0xEE 0xEF 3 (by decide) (by omega) _).trans
        ((hTwo _).trans (hOne text))
  · have hTop : n / 262144 = 0 ∨ 1 ≤ n / 262144 ∧ n / 262144 ≤ 3 ∨ n / 262144 = 4 := by
      omega
    rcases hTop with hTop | hTop | hTop
    · exact (decodeText_row accept 0xF0 0xF0 6 (by decide) (by omega) _).trans
        ((decodeText_row 6 0x90 0xBF 3 (by decide) (by omega) _).trans
          ((hTwo _).trans (hOne text)))
    · exact (decodeText_row accept 0xF1 0xF3 7 (by decide) (by omega) _).trans
        ((decodeText_row 7 0x80 0xBF 3 (by decide) (by omega) _).trans
          ((hTwo _).trans (hOne text)))
    · exact (decodeText_row accept 0xF4 0xF4 8 (by decide) (by omega) _).trans
        ((decodeText_row 8 0x80 0x8F 3 (by decide) (by omega) _).trans
          ((hTwo _).trans (hOne text)))

theorem decodeText_encode (cs : List Char) : decodeText accept (encode cs) = some accept := by
  induction cs with
  | nil => rfl
  | cons c cs ih =>
    rw [encode, List.flatMap_cons, decodeText_encodeChar]
    exact ih

/-! ### What is taken is in UTF-8 -/

/-- The characters of the text stand for bytes. -/
def IsBytes (text : Text) : Prop := ∀ c ∈ text, c.toNat < 256

/-- A text that is taken to its end is empty, between characters, or begins with a byte that has a
row. -/
theorem exists_row {state : ℕ} (hState : state < 9) {text : Text}
    (hBytes : IsBytes text) (h : decodeText state text = some accept) :
    text = [] ∧ state = accept ∨ ∃ byte low high next rest, ⟨state, low, high, next⟩ ∈ rows ∧
      (low ≤ byte ∧ byte ≤ high) ∧ text = Char.ofNat byte :: rest ∧ IsBytes rest ∧
      decodeText next rest = some accept := by
  cases text with
  | nil =>
    cases h
    exact .inl ⟨rfl, rfl⟩
  | cons c rest =>
    have hByte : c.toNat < 256 := hBytes c List.mem_cons_self
    have hChar : Char.ofNat c.toNat = c := Char.ofNat_toNat c
    rw [decodeText] at h
    split at h
    · cases h
    rename_i hDecode
    obtain ⟨⟨state, low, high, next⟩, hRow, rfl, hRange⟩ :=
      row_of_decode state hState c.toNat hByte (by rwa [hChar])
    have hNext := decode_row _ hRow c.toNat hByte hRange
    rw [hChar] at hNext
    rw [hNext] at h
    exact .inr ⟨c.toNat, low, high, next, rest, hRow, hRange, by rw [hChar],
      fun d hd => hBytes d (List.mem_cons_of_mem _ hd), h⟩

/-- What continues a character is determined by the state. -/
theorem row_unique : ∀ row ∈ rows, row.state ≠ accept → ∀ row' ∈ rows, row'.state = row.state →
    row' = row := by
  decide

theorem exists_tail (state low high next : ℕ) (hRow : ⟨state, low, high, next⟩ ∈ rows)
    (hState : state ≠ accept) (hLast : state < 9) {text : Text}
    (hBytes : IsBytes text) (h : decodeText state text = some accept) :
    ∃ byte rest, (low ≤ byte ∧ byte ≤ high) ∧ text = Char.ofNat byte :: rest ∧ IsBytes rest ∧
      decodeText next rest = some accept := by
  rcases exists_row hLast hBytes h with ⟨-, hAccept⟩ |
    ⟨byte, low', high', next', rest, hRow', hByte, hText, hRest, hDecoded⟩
  · exact absurd hAccept hState
  · cases row_unique _ hRow hState _ hRow' rfl
    exact ⟨byte, rest, hByte, hText, hRest, hDecoded⟩

theorem exists_last {text : Text} (hBytes : IsBytes text) (h : decodeText 2 text = some accept) :
    ∃ z rest, (0x80 ≤ z ∧ z ≤ 0xBF) ∧ text = Char.ofNat z :: rest ∧ IsBytes rest ∧
      decodeText accept rest = some accept :=
  exists_tail 2 0x80 0xBF accept (by decide) (by decide) (by decide) hBytes h

theorem exists_two {text : Text} (hBytes : IsBytes text) (h : decodeText 3 text = some accept) :
    ∃ y z rest, (0x80 ≤ y ∧ y ≤ 0xBF) ∧ (0x80 ≤ z ∧ z ≤ 0xBF) ∧
      text = Char.ofNat y :: Char.ofNat z :: rest ∧ IsBytes rest ∧
      decodeText accept rest = some accept := by
  obtain ⟨y, rest, hy, rfl, hRest, hDecoded⟩ :=
    exists_tail 3 0x80 0xBF 2 (by decide) (by decide) (by decide) hBytes h
  obtain ⟨z, rest, hz, rfl, hRest, hDecoded⟩ := exists_last hRest hDecoded
  exact ⟨y, z, rest, hy, hz, rfl, hRest, hDecoded⟩

theorem exists_char {n : ℕ} (hValid : n < 0xD800 ∨ 0xDFFF < n ∧ n < 0x110000) :
    ∃ c : Char, c.toNat = n := ⟨Char.ofNatAux n hValid, rfl⟩

theorem exists_char_two {a z : ℕ} (ha : 0xC2 ≤ a ∧ a ≤ 0xDF) (hz : 0x80 ≤ z ∧ z ≤ 0xBF) :
    ∃ c, encodeChar c = [Char.ofNat a, Char.ofNat z] := by
  obtain ⟨n, hn⟩ : ∃ n, n = (a - 0xC0) * 64 + (z - 0x80) := ⟨_, rfl⟩
  obtain ⟨c, hc⟩ := exists_char (n := n) (by omega)
  have hFirst : n / 64 + 0xC0 = a := by omega
  have hLast : n % 64 + 0x80 = z := by omega
  refine ⟨c, ?_⟩
  rw [encodeChar_eq hc, if_neg (by omega), if_pos (by omega), hFirst, hLast]

theorem exists_char_three {a y z : ℕ} (ha : 0xE0 ≤ a ∧ a ≤ 0xEF) (hy : 0x80 ≤ y ∧ y ≤ 0xBF)
    (hz : 0x80 ≤ z ∧ z ≤ 0xBF) (hLong : a = 0xE0 → 0xA0 ≤ y) (hSurrogate : a = 0xED → y ≤ 0x9F) :
    ∃ c, encodeChar c = [Char.ofNat a, Char.ofNat y, Char.ofNat z] := by
  obtain ⟨n, hn⟩ : ∃ n, n = (a - 0xE0) * 4096 + (y - 0x80) * 64 + (z - 0x80) := ⟨_, rfl⟩
  obtain ⟨c, hc⟩ := exists_char (n := n) (by omega)
  have hFirst : n / 4096 + 0xE0 = a := by omega
  have hNext : n / 64 % 64 + 0x80 = y := by omega
  have hLast : n % 64 + 0x80 = z := by omega
  refine ⟨c, ?_⟩
  rw [encodeChar_eq hc, if_neg (by omega), if_neg (by omega), if_pos (by omega), hFirst, hNext,
    hLast]

theorem exists_char_four {a x y z : ℕ} (ha : 0xF0 ≤ a ∧ a ≤ 0xF4) (hx : 0x80 ≤ x ∧ x ≤ 0xBF)
    (hy : 0x80 ≤ y ∧ y ≤ 0xBF) (hz : 0x80 ≤ z ∧ z ≤ 0xBF) (hLong : a = 0xF0 → 0x90 ≤ x)
    (hMax : a = 0xF4 → x ≤ 0x8F) :
    ∃ c, encodeChar c = [Char.ofNat a, Char.ofNat x, Char.ofNat y, Char.ofNat z] := by
  obtain ⟨n, hn⟩ :
      ∃ n, n = (a - 0xF0) * 262144 + (x - 0x80) * 4096 + (y - 0x80) * 64 + (z - 0x80) := ⟨_, rfl⟩
  obtain ⟨c, hc⟩ := exists_char (n := n) (by omega)
  have hFirst : n / 262144 + 0xF0 = a := by omega
  have hSecond : n / 4096 % 64 + 0x80 = x := by omega
  have hNext : n / 64 % 64 + 0x80 = y := by omega
  have hLast : n % 64 + 0x80 = z := by omega
  refine ⟨c, ?_⟩
  rw [encodeChar_eq hc, if_neg (by omega), if_neg (by omega), if_neg (by omega), hFirst, hSecond,
    hNext, hLast]

/-- The second byte of a character of two, three or four bytes.  The shortest bytes are used, and
surrogates are no characters. -/
def Row.Second (row row' : Row) : Prop :=
  0x80 ≤ row'.low ∧ row'.high ≤ 0xBF ∧
    (row'.next = accept ∧ 0xC2 ≤ row.low ∧ row.high ≤ 0xDF ∨
      row'.next = 2 ∧ 0xE0 ≤ row.low ∧ row.high ≤ 0xEF ∧ (row.low = 0xE0 → 0xA0 ≤ row'.low) ∧
        (row.low ≤ 0xED ∧ 0xED ≤ row.high → row'.high ≤ 0x9F) ∨
      row'.next = 3 ∧ 0xF0 ≤ row.low ∧ row.high ≤ 0xF4 ∧ (row.low = 0xF0 → 0x90 ≤ row'.low) ∧
        (row.high = 0xF4 → row'.high ≤ 0x8F))

instance (row row' : Row) : Decidable (row.Second row') := inferInstanceAs (Decidable (_ ∧ _ ∧ _))

theorem row_second : ∀ row ∈ rows, row.state = accept → row.next = accept ∧ row.high ≤ 0x7F ∨
    row.next ≠ accept ∧ ∀ row' ∈ rows, row'.state = row.next → row.Second row' := by
  decide

/-- A text that is taken begins with the bytes of a character. -/
theorem exists_encodeChar {text : Text} (hBytes : IsBytes text) (hText : text ≠ [])
    (h : decodeText accept text = some accept) :
    ∃ c rest, text = encodeChar c ++ rest ∧ IsBytes rest ∧
      decodeText accept rest = some accept := by
  rcases exists_row (by decide) hBytes h with ⟨hNil, -⟩ |
    ⟨a, low, high, next, rest, hRow, ha, rfl, hRest, hDecoded⟩
  · exact absurd hNil hText
  rcases row_second _ hRow rfl with ⟨hNext, hHigh⟩ | ⟨hNext, hSecond⟩
  · obtain ⟨c, hc⟩ := exists_char (n := a) (by dsimp only at hHigh; omega)
    dsimp only at hNext hHigh
    subst hNext
    refine ⟨c, rest, ?_, hRest, hDecoded⟩
    rw [encodeChar_eq hc, if_pos (by omega)]
    rfl
  rcases exists_row (row_bounds _ hRow).2.1 hRest hDecoded with ⟨-, hAccept⟩ |
    ⟨x, low', high', next', rest, hRow', hx, rfl, hRest, hDecoded⟩
  · exact absurd hAccept hNext
  obtain ⟨hLow', hHigh', hCases⟩ := hSecond _ hRow' rfl
  dsimp only at hLow' hHigh' hCases
  rcases hCases with ⟨rfl, hLow, hHigh⟩ | ⟨rfl, hLow, hHigh, hLong, hLess⟩ |
    ⟨rfl, hLow, hHigh, hLong, hLess⟩
  · obtain ⟨c, hc⟩ := exists_char_two (a := a) (z := x) (by omega) (by omega)
    exact ⟨c, rest, by rw [hc]; rfl, hRest, hDecoded⟩
  · obtain ⟨z, rest, hz, rfl, hRest, hDecoded⟩ := exists_last hRest hDecoded
    obtain ⟨c, hc⟩ := exists_char_three (a := a) (y := x) (by omega) (by omega) hz (by omega)
      (by omega)
    exact ⟨c, rest, by rw [hc]; rfl, hRest, hDecoded⟩
  · obtain ⟨y, z, rest, hy, hz, rfl, hRest, hDecoded⟩ := exists_two hRest hDecoded
    obtain ⟨c, hc⟩ := exists_char_four (a := a) (x := x) (by omega) (by omega) hy hz (by omega)
      (by omega)
    exact ⟨c, rest, by rw [hc]; rfl, hRest, hDecoded⟩

/-- The texts that are taken are those in UTF-8. -/
theorem validate_iff {text : Text} (hBytes : IsBytes text) :
    validate text = true ↔ ∃ cs, text = encode cs := by
  rw [validate, decide_eq_true_iff]
  constructor
  · intro h
    induction hLen : text.length using Nat.strong_induction_on generalizing text with
    | _ n ih =>
      by_cases hText : text = []
      · exact ⟨[], hText⟩
      · obtain ⟨c, rest, rfl, hRest, hDecoded⟩ := exists_encodeChar hBytes hText h
        have hShort : rest.length < n := by
          rw [← hLen, List.length_append]
          have hSize : 0 < (encodeChar c).length := by
            rw [encodeChar, List.length_map, String.length_utf8EncodeChar]
            exact c.utf8Size_pos
          omega
        obtain ⟨cs, rfl⟩ := ih _ hShort hRest hDecoded rfl
        exact ⟨c :: cs, rfl⟩
  · rintro ⟨cs, rfl⟩
    exact decodeText_encode cs

end Utf8Validator

/-- A payload is refused exactly when it is a text that is not in UTF-8. -/
theorem Payload.isFramed_iff {payload : Payload} (hBytes : Utf8Validator.IsBytes payload.text) :
    payload.isFramed = true ↔
      payload.opcode = .binary ∨ ∃ cs, payload.text = Utf8Validator.encode cs := by
  rw [isFramed, Bool.or_eq_true, decide_eq_true_iff, Utf8Validator.validate_iff hBytes]

end Sio
