import TaquinSolver.Java.Text

/-! JSON documents and their texts.  A number is an integer of 64 bits, signed or not, or of a type
`δ` of other numbers.  A `Format` is any writer and reader such that reading gives back what was
written, for the documents whose numbers the format holds exactly.  `compact` is one for documents
without other numbers: it writes no white space and reads the texts that it writes. -/

namespace Json

open Java

inductive Value (δ : Type)
  | null
  | bool (b : Bool)
  | int (i : Int)
  | double (x : δ)
  | string (s : Text)
  | array (l : List (Value δ))
  | object (m : List (Text × Value δ))

section Exact

variable {δ : Type} (exact : δ → Prop)

/-- The integers that are integers of 64 bits. -/
def IsInt (i : Int) : Prop := -2 ^ 63 ≤ i ∧ i < 2 ^ 64

mutual

/-- All numbers in a document are held exactly. -/
def Exact : Value δ → Prop
  | .null | .bool _ | .string _ => True
  | .int i => IsInt i
  | .double x => exact x
  | .array l => ExactAll l
  | .object m => ExactMembers m

def ExactAll : List (Value δ) → Prop
  | [] => True
  | v :: l => Exact v ∧ ExactAll l

def ExactMembers : List (Text × Value δ) → Prop
  | [] => True
  | (_, v) :: m => Exact v ∧ ExactMembers m

end

end Exact

/-- A writer and a reader of documents.  The text of an array, an object or a string begins with its
bracket, brace or quotation mark, and no text contains the character 0. -/
structure Format (δ : Type) where
  write : Value δ → Text
  parse : Text → Option (Value δ)
  exact : δ → Prop
  parse_write : ∀ v, Exact exact v → parse (write v) = some v
  write_array : ∀ l, (write (.array l)).head? = some '['
  write_object : ∀ m, (write (.object m)).head? = some (Char.ofNat 123)
  write_string : ∀ s, (write (.string s)).head? = some (Char.ofNat 34)
  nul_notMem : ∀ v, Char.ofNat 0 ∉ write v

/-! ### Compact texts -/

/-- The quotation mark. -/
def quote : Char := Char.ofNat 34

def backslash : Char := Char.ofNat 92

def openBrace : Char := Char.ofNat 123

def closeBrace : Char := Char.ofNat 125

/-- The characters with an escape of one letter, and the letter. -/
def escapes : List (Char × Char) :=
  [(quote, quote), (backslash, backslash), (Char.ofNat 8, 'b'), (Char.ofNat 9, 't'),
    (Char.ofNat 10, 'n'), (Char.ofNat 12, 'f'), (Char.ofNat 13, 'r')]

def hexDigit (d : ℕ) : Char := if d < 10 then Char.ofNat (48 + d) else Char.ofNat (55 + d)

def hexValue (c : Char) : Option ℕ :=
  if 48 ≤ c.toNat ∧ c.toNat < 58 then some (c.toNat - 48)
  else if 65 ≤ c.toNat ∧ c.toNat < 71 then some (c.toNat - 55)
  else if 97 ≤ c.toNat ∧ c.toNat < 103 then some (c.toNat - 87)
  else none

def escape (c : Char) : Text :=
  match escapes.find? fun p => p.1 == c with
  | some p => [backslash, p.2]
  | none =>
    if c.toNat < 32 then
      [backslash, 'u', '0', '0', hexDigit (c.toNat / 16), hexDigit (c.toNat % 16)]
    else [c]

def writeString (s : Text) : Text := quote :: (s.flatMap escape ++ [quote])

mutual

def write : Value Empty → Text
  | .null => ['n', 'u', 'l', 'l']
  | .bool true => ['t', 'r', 'u', 'e']
  | .bool false => ['f', 'a', 'l', 's', 'e']
  | .int i => intToText i
  | .string s => writeString s
  | .array [] => ['[', ']']
  | .array (v :: l) => '[' :: (write v ++ writeRest l)
  | .object [] => [openBrace, closeBrace]
  | .object ((k, v) :: m) => openBrace :: (writeString k ++ ':' :: (write v ++ writeMembers m))

/-- The elements after the first one, and the bracket. -/
def writeRest : List (Value Empty) → Text
  | [] => [']']
  | v :: l => ',' :: (write v ++ writeRest l)

/-- The members after the first one, and the brace. -/
def writeMembers : List (Text × Value Empty) → Text
  | [] => [closeBrace]
  | (k, v) :: m => ',' :: (writeString k ++ ':' :: (write v ++ writeMembers m))

end

/-- The characters of a string up to its quotation mark, and the rest of the text. -/
def readString : Text → Option (Text × Text)
  | [] => none
  | c :: t =>
    if c = quote then some ([], t)
    else if c = backslash then
      match t with
      | 'u' :: a :: b :: d :: e :: t =>
        match hexValue a, hexValue b, hexValue d, hexValue e with
        | some a, some b, some d, some e =>
          (readString t).map fun r => (Char.ofNat (a * 4096 + b * 256 + d * 16 + e) :: r.1, r.2)
        | _, _, _, _ => none
      | e :: t =>
        match escapes.find? fun p => p.2 == e with
        | some p => (readString t).map fun r => (p.1 :: r.1, r.2)
        | none => none
      | [] => none
    else (readString t).map fun r => (c :: r.1, r.2)

def readNat (t : Text) : Option (ℕ × Text) :=
  match t.takeWhile Char.isDigit with
  | [] => none
  | ds => some (Nat.ofDigitChars 10 ds 0, t.dropWhile Char.isDigit)

mutual

def read : ℕ → Text → Option (Value Empty × Text)
  | 0, _ => none
  | _ + 1, [] => none
  | fuel + 1, c :: t =>
    if c = 'n' then if ['u', 'l', 'l'] <+: t then some (.null, t.drop 3) else none
    else if c = 't' then if ['r', 'u', 'e'] <+: t then some (.bool true, t.drop 3) else none
    else if c = 'f' then if ['a', 'l', 's', 'e'] <+: t then some (.bool false, t.drop 4) else none
    else if c = quote then (readString t).map fun r => (.string r.1, r.2)
    else if c = '[' then
      if t.head? = some ']' then some (.array [], t.tail)
      else
        match read fuel t with
        | some (v, t) => (readRest fuel t).map fun r => (.array (v :: r.1), r.2)
        | none => none
    else if c = openBrace then
      if t.head? = some closeBrace then some (.object [], t.tail)
      else (readMember fuel t).map fun r => (.object r.1, r.2)
    else if c = '-' then (readNat t).map fun r => (.int (-r.1), r.2)
    else (readNat (c :: t)).map fun r => (.int r.1, r.2)

def readRest : ℕ → Text → Option (List (Value Empty) × Text)
  | 0, _ => none
  | fuel + 1, ',' :: t =>
    match read fuel t with
    | some (v, t) => (readRest fuel t).map fun r => (v :: r.1, r.2)
    | none => none
  | _ + 1, ']' :: t => some ([], t)
  | _ + 1, _ => none

def readMember : ℕ → Text → Option (List (Text × Value Empty) × Text)
  | 0, _ => none
  | fuel + 1, c :: t =>
    if c = quote then
      match readString t with
      | some (k, ':' :: t) =>
        match read fuel t with
        | some (v, c :: t) =>
          if c = ',' then (readMember fuel t).map fun r => ((k, v) :: r.1, r.2)
          else if c = closeBrace then some ([(k, v)], t)
          else none
        | _ => none
      | _ => none
    else none
  | _ + 1, [] => none

end

/-- A text that is one document. -/
def parse (t : Text) : Option (Value Empty) :=
  match read (t.length + 1) t with
  | some (v, []) => some v
  | _ => none

/-! ### Reading what was written -/

theorem hexValue_hexDigit {d : ℕ} (hd : d < 16) : hexValue (hexDigit d) = some d := by
  have h : ∀ d < 16, hexValue (hexDigit d) = some d := by decide
  exact h d hd

theorem escape_cases (c : Char) :
    (∃ e, (c, e) ∈ escapes ∧ escape c = [backslash, e]) ∨
    (c.toNat < 32 ∧
      escape c = [backslash, 'u', '0', '0', hexDigit (c.toNat / 16), hexDigit (c.toNat % 16)]) ∨
    (c ≠ quote ∧ c ≠ backslash ∧ 32 ≤ c.toNat ∧ escape c = [c]) := by
  unfold escape
  split
  · rename_i p hp
    have hMem := List.mem_of_find?_eq_some hp
    have hKey : p.1 = c := by simpa using List.find?_some hp
    exact .inl ⟨p.2, hKey ▸ hMem, rfl⟩
  · rename_i hNone
    right
    split
    · exact .inl ⟨by assumption, rfl⟩
    · refine .inr ⟨?_, ?_, by omega, rfl⟩ <;> rintro rfl <;> revert hNone <;> decide

theorem readString_letter {c e : Char} (h : (c, e) ∈ escapes) (t : Text) :
    readString (backslash :: e :: t) = (readString t).map fun r => (c :: r.1, r.2) := by
  have hAll : ∀ p ∈ escapes, p.2 ≠ 'u' ∧ (escapes.find? fun q => q.2 == p.2) = some p := by decide
  obtain ⟨hu, hFind⟩ := hAll _ h
  rw [readString.eq_def]
  simp only [show backslash ≠ quote by decide, if_false, if_true]
  split
  · simp_all
  · simp_all
  · simp_all

theorem readString_hex {c : Char} (h : c.toNat < 32) (t : Text) :
    readString (backslash :: 'u' :: '0' :: '0' :: hexDigit (c.toNat / 16) ::
      hexDigit (c.toNat % 16) :: t) = (readString t).map fun r => (c :: r.1, r.2) := by
  have hChar : Char.ofNat (0 * 4096 + 0 * 256 + c.toNat / 16 * 16 + c.toNat % 16) = c := by
    rw [show 0 * 4096 + 0 * 256 + c.toNat / 16 * 16 + c.toNat % 16 = c.toNat by omega]
    exact Char.ofNat_toNat c
  rw [readString.eq_def]
  simp only [show backslash ≠ quote by decide, if_false, if_true]
  rw [hexValue_hexDigit (by omega), hexValue_hexDigit (by omega),
    show hexValue '0' = some 0 by decide]
  simp only [hChar]

theorem readString_escape (c : Char) (t : Text) :
    readString (escape c ++ t) = (readString t).map fun r => (c :: r.1, r.2) := by
  rcases escape_cases c with ⟨e, hMem, hEscape⟩ | ⟨hLow, hEscape⟩ | ⟨hq, hb, -, hEscape⟩
  · rw [hEscape]
    exact readString_letter hMem t
  · rw [hEscape]
    exact readString_hex hLow t
  · rw [hEscape, List.singleton_append, readString.eq_def]
    simp only [hq, hb, if_false]

theorem readString_writeString (s t : Text) :
    readString (s.flatMap escape ++ quote :: t) = some (s, t) := by
  induction s with
  | nil =>
    rw [List.flatMap_nil, List.nil_append, readString.eq_def]
    simp
  | cons c s ih =>
    rw [List.flatMap_cons, List.append_assoc, readString_escape, ih]
    rfl

/-- The text after a number does not begin with a digit. -/
def EndsNumber (t : Text) : Prop := ∀ c, t.head? = some c → c.isDigit = false

theorem readNat_toDigits (n : ℕ) {t : Text} (ht : EndsNumber t) :
    readNat (Nat.toDigits 10 n ++ t) = some (n, t) := by
  have hDigits : ∀ c ∈ Nat.toDigits 10 n, c.isDigit = true := fun c hc =>
    Nat.isDigit_of_mem_toDigits (by decide) (by decide) hc
  have hTake : t.takeWhile Char.isDigit = [] ∧ t.dropWhile Char.isDigit = t := by
    cases t with
    | nil => exact ⟨rfl, rfl⟩
    | cons c t =>
      have hc := ht c rfl
      exact ⟨List.takeWhile_cons_of_neg (by rw [hc]; decide),
        List.dropWhile_cons_of_neg (by rw [hc]; decide)⟩
  rw [readNat, List.takeWhile_append_of_pos hDigits, List.dropWhile_append_of_pos hDigits, hTake.1,
    hTake.2, List.append_nil]
  split
  · exact absurd (by assumption) Nat.toDigits_ne_nil
  · rw [Nat.ofDigitChars_ten_toDigits]

theorem digit_ne {c : Char} (h : c.isDigit = true) : c ≠ 'n' ∧ c ≠ 't' ∧ c ≠ 'f' ∧ c ≠ quote ∧
    c ≠ '[' ∧ c ≠ openBrace ∧ c ≠ '-' := by
  refine ⟨?_, ?_, ?_, ?_, ?_, ?_, ?_⟩ <;> rintro rfl <;> revert h <;> decide

theorem read_int (i : ℤ) (fuel : ℕ) {t : Text} (ht : EndsNumber t) :
    read (fuel + 1) (intToText i ++ t) = some (.int i, t) := by
  unfold intToText
  split
  · rw [List.cons_append, read, if_neg (by decide), if_neg (by decide), if_neg (by decide),
      if_neg (by decide), if_neg (by decide), if_neg (by decide), if_pos rfl,
      readNat_toDigits _ ht, Option.map_some]
    congr
    omega
  · obtain ⟨c, ds, hText⟩ :=
      List.exists_cons_of_ne_nil (Nat.toDigits_ne_nil (b := 10) (n := i.natAbs))
    have hDigit : c.isDigit = true :=
      Nat.isDigit_of_mem_toDigits (b := 10) (n := i.natAbs) (by decide) (by decide)
        (by rw [hText]; simp)
    obtain ⟨h1, h2, h3, h4, h5, h6, h7⟩ := digit_ne hDigit
    rw [hText, List.cons_append, read, if_neg h1, if_neg h2, if_neg h3, if_neg h4, if_neg h5,
      if_neg h6, if_neg h7, ← List.cons_append, ← hText, readNat_toDigits _ ht, Option.map_some]
    congr
    omega

theorem endsNumber_cons {c : Char} (hc : c.isDigit = false) (t : Text) : EndsNumber (c :: t) := by
  intro d hd
  cases hd
  exact hc

theorem endsNumber_writeRest (l : List (Value Empty)) (t : Text) :
    EndsNumber (writeRest l ++ t) := by
  cases l with
  | nil => exact endsNumber_cons (by decide) t
  | cons v l => exact endsNumber_cons (by decide) _

theorem endsNumber_writeMembers (m : List (Text × Value Empty)) (t : Text) :
    EndsNumber (writeMembers m ++ t) := by
  cases m with
  | nil => exact endsNumber_cons (by decide) t
  | cons kv m => exact endsNumber_cons (by decide) _

/-- The first character of a document is not that of the end of an array. -/
theorem write_eq_cons (v : Value Empty) : ∃ c t, write v = c :: t ∧ c ≠ ']' := by
  unfold write
  split
  case h_4 i =>
    unfold intToText
    split
    · exact ⟨_, _, rfl, by decide⟩
    · obtain ⟨c, ds, hText⟩ :=
        List.exists_cons_of_ne_nil (Nat.toDigits_ne_nil (b := 10) (n := i.natAbs))
      have hDigit : c.isDigit = true :=
        Nat.isDigit_of_mem_toDigits (b := 10) (n := i.natAbs) (by decide) (by decide)
          (by rw [hText]; simp)
      refine ⟨c, ds, hText, ?_⟩
      rintro rfl
      revert hDigit
      decide
  all_goals exact ⟨_, _, rfl, by decide⟩

theorem read_string (fuel : ℕ) (s t : Text) :
    read (fuel + 1) (writeString s ++ t) = some (.string s, t) := by
  rw [writeString, List.cons_append, List.append_assoc, List.singleton_append, read,
    if_neg (by decide), if_neg (by decide), if_neg (by decide), if_pos rfl,
    readString_writeString]
  rfl

theorem readMember_last {fuel : ℕ} {k : Text} {v : Value Empty} {t t' : Text}
    (hv : read fuel t = some (v, closeBrace :: t')) :
    readMember (fuel + 1) (writeString k ++ ':' :: t) = some ([(k, v)], t') := by
  rw [writeString, List.cons_append, List.append_assoc, List.singleton_append, readMember,
    if_pos rfl, readString_writeString]
  simp only [hv, show closeBrace ≠ ',' by decide, if_false, if_true]

theorem readMember_next {fuel : ℕ} {k : Text} {v : Value Empty} {t t' t'' : Text}
    {m : List (Text × Value Empty)} (hv : read fuel t = some (v, ',' :: t'))
    (hm : readMember fuel t' = some (m, t'')) :
    readMember (fuel + 1) (writeString k ++ ':' :: t) = some ((k, v) :: m, t'') := by
  rw [writeString, List.cons_append, List.append_assoc, List.singleton_append, readMember,
    if_pos rfl, readString_writeString]
  simp only [hv, if_true, hm, Option.map_some]

mutual

theorem read_write (v : Value Empty) (fuel : ℕ) (t : Text) (hLen : (write v).length ≤ fuel)
    (ht : EndsNumber t) : read fuel (write v ++ t) = some (v, t) := by
  obtain ⟨c, u, hText, -⟩ := write_eq_cons v
  obtain ⟨fuel, rfl⟩ : ∃ f, fuel = f + 1 := ⟨fuel - 1, by rw [hText] at hLen; simp at hLen; omega⟩
  match v with
  | .null => simp [write, read]
  | .bool true => simp [write, read]
  | .bool false => simp [write, read]
  | .int i =>
    rw [write]
    exact read_int i fuel ht
  | .string s =>
    rw [write]
    exact read_string fuel s t
  | .array [] => simp [write, read, show '[' ≠ quote by decide]
  | .array (v :: l) =>
    rw [write, List.length_cons, List.length_append] at hLen
    have hv := read_write v fuel (writeRest l ++ t) (by omega) (endsNumber_writeRest l t)
    have hl := readRest_writeRest l fuel t (by omega)
    obtain ⟨c, u, hHead, hc⟩ := write_eq_cons v
    rw [write, List.cons_append, List.append_assoc, read, if_neg (by decide), if_neg (by decide),
      if_neg (by decide), if_neg (by decide), if_pos rfl,
      if_neg (by rw [hHead, List.cons_append, List.head?_cons]; simpa using hc), hv]
    simp only
    rw [hl]
    rfl
  | .object [] =>
    rw [write, List.cons_append, List.singleton_append, read, if_neg (by decide),
      if_neg (by decide), if_neg (by decide), if_neg (by decide), if_neg (by decide), if_pos rfl,
      List.head?_cons, if_pos rfl]
    rfl
  | .object ((k, v) :: m) =>
    rw [write, List.length_cons] at hLen
    have hm := readMember_writeMembers k v m fuel t (by omega)
    rw [write, List.cons_append, read, if_neg (by decide), if_neg (by decide), if_neg (by decide),
      if_neg (by decide), if_neg (by decide), if_pos rfl,
      if_neg (by rw [writeString]; simp; decide), hm]
    rfl

theorem readRest_writeRest (l : List (Value Empty)) (fuel : ℕ) (t : Text)
    (hLen : (writeRest l).length ≤ fuel) : readRest fuel (writeRest l ++ t) = some (l, t) := by
  match l with
  | [] =>
    obtain ⟨fuel, rfl⟩ : ∃ f, fuel = f + 1 := ⟨fuel - 1, by simp [writeRest] at hLen; omega⟩
    simp [writeRest, readRest]
  | v :: l =>
    rw [writeRest, List.length_cons, List.length_append] at hLen
    obtain ⟨fuel, rfl⟩ : ∃ f, fuel = f + 1 := ⟨fuel - 1, by omega⟩
    have hv := read_write v fuel (writeRest l ++ t) (by omega) (endsNumber_writeRest l t)
    have hl := readRest_writeRest l fuel t (by omega)
    rw [writeRest, List.cons_append, List.append_assoc, readRest, hv]
    simp only
    rw [hl]
    rfl

theorem readMember_writeMembers (k : Text) (v : Value Empty) (m : List (Text × Value Empty))
    (fuel : ℕ) (t : Text)
    (hLen : (writeString k ++ ':' :: (write v ++ writeMembers m)).length ≤ fuel) :
    readMember fuel (writeString k ++ ':' :: (write v ++ writeMembers m) ++ t) =
      some ((k, v) :: m, t) := by
  rw [List.length_append, List.length_cons, List.length_append] at hLen
  obtain ⟨fuel, rfl⟩ : ∃ f, fuel = f + 1 := ⟨fuel - 1, by omega⟩
  have hv := read_write v fuel (writeMembers m ++ t) (by omega) (endsNumber_writeMembers m t)
  rw [List.append_assoc, List.cons_append, List.append_assoc]
  match m with
  | [] => exact readMember_last hv
  | (k', v') :: m =>
    rw [writeMembers, List.length_cons] at hLen
    refine readMember_next (hv.trans ?_) (readMember_writeMembers k' v' m fuel t (by omega))
    rw [writeMembers, List.cons_append]

end

theorem parse_write (v : Value Empty) : parse (write v) = some v := by
  have h := read_write v ((write v).length + 1) [] (by omega) fun c hc => by cases hc
  rw [List.append_nil] at h
  rw [parse, h]

/-! ### The compact format -/

theorem nul_notMem_escape (c : Char) : Char.ofNat 0 ∉ escape c := by
  rcases escape_cases c with ⟨e, hMem, hEscape⟩ | ⟨hLow, hEscape⟩ | ⟨-, -, hHigh, hEscape⟩
  · have hAll : ∀ p ∈ escapes, Char.ofNat 0 ∉ [backslash, p.2] := by decide
    rw [hEscape]
    exact hAll _ hMem
  · have hAll : ∀ n < 32, Char.ofNat 0 ∉
        [backslash, 'u', '0', '0', hexDigit (n / 16), hexDigit (n % 16)] := by decide
    rw [hEscape]
    exact hAll _ hLow
  · rw [hEscape, List.mem_singleton]
    rintro rfl
    exact absurd hHigh (by decide)

theorem nul_notMem_writeString (s : Text) : Char.ofNat 0 ∉ writeString s := by
  rw [writeString, List.mem_cons, List.mem_append, List.mem_flatMap, List.mem_singleton]
  rintro (h | ⟨c, -, hc⟩ | h)
  · exact absurd h (by decide)
  · exact nul_notMem_escape c hc
  · exact absurd h (by decide)

theorem nul_notMem_intToText (i : ℤ) : Char.ofNat 0 ∉ intToText i := by
  have hDigits : Char.ofNat 0 ∉ Nat.toDigits 10 i.natAbs := fun h =>
    absurd (Nat.isDigit_of_mem_toDigits (by decide) (by decide) h) (by decide)
  unfold intToText
  split
  · rw [List.mem_cons, not_or]
    exact ⟨by decide, hDigits⟩
  · exact hDigits

mutual

theorem nul_notMem_write (v : Value Empty) : Char.ofNat 0 ∉ write v := by
  match v with
  | .null => decide
  | .bool true => decide
  | .bool false => decide
  | .int i => exact nul_notMem_intToText i
  | .string s => exact nul_notMem_writeString s
  | .array [] => decide
  | .array (v :: l) =>
    rw [write, List.mem_cons, List.mem_append, not_or, not_or]
    exact ⟨by decide, nul_notMem_write v, nul_notMem_writeRest l⟩
  | .object [] => decide
  | .object ((k, v) :: m) =>
    rw [write, List.mem_cons, List.mem_append, List.mem_cons, List.mem_append, not_or, not_or,
      not_or, not_or]
    exact ⟨by decide, nul_notMem_writeString k, by decide, nul_notMem_write v,
      nul_notMem_writeMembers m⟩

theorem nul_notMem_writeRest (l : List (Value Empty)) : Char.ofNat 0 ∉ writeRest l := by
  match l with
  | [] => decide
  | v :: l =>
    rw [writeRest, List.mem_cons, List.mem_append, not_or, not_or]
    exact ⟨by decide, nul_notMem_write v, nul_notMem_writeRest l⟩

theorem nul_notMem_writeMembers (m : List (Text × Value Empty)) :
    Char.ofNat 0 ∉ writeMembers m := by
  match m with
  | [] => decide
  | (k, v) :: m =>
    rw [writeMembers, List.mem_cons, List.mem_append, List.mem_cons, List.mem_append, not_or,
      not_or, not_or, not_or]
    exact ⟨by decide, nul_notMem_writeString k, by decide, nul_notMem_write v,
      nul_notMem_writeMembers m⟩

end

/-- Texts without white space, for documents whose numbers are integers. -/
def compact : Format Empty where
  write := write
  parse := parse
  exact := fun _ => True
  parse_write v _ := parse_write v
  write_array l := by cases l <;> rfl
  write_object m := by cases m <;> rfl
  write_string _ := rfl
  nul_notMem := nul_notMem_write

example : parse ['[', Char.ofNat 34, 'a', Char.ofNat 34, ',', '-', '1', '2', ']'] =
    some (.array [.string ['a'], .int (-12)]) := by rfl

end Json
