import TaquinSolver.Json.Format

/-! Messages, and their documents.  A byte string of a message does not stand in the document: it
travels in a payload of its own, and an object with the name `_placeholder` and the number of the
payload stands in its place. -/

namespace Sio

open Java (Text)

/-- What stops a run: a failed `assert`, a null pointer, a failed `boost::lexical_cast`.  Asserts are
enabled here, as in a build without `NDEBUG`. -/
inductive Failure
  | assertion
  | nullPointer
  | badLexicalCast
  deriving DecidableEq

abbrev Result (α : Type) := Except Failure α

@[simp] theorem Result.ok_bind {α β : Type} (a : α) (f : α → Result β) :
    (Except.ok a >>= f) = f a := rfl

theorem Result.bind_eq_ok {α β : Type} {x : Result α} {f : α → Result β} {b : β} :
    x >>= f = .ok b ↔ ∃ a, x = .ok a ∧ f a = .ok b := by
  cases x with
  | error e =>
    constructor
    · intro h
      cases h
    · rintro ⟨_, h, _⟩
      cases h
  | ok a =>
    constructor
    · intro h
      exact ⟨a, rfl, h⟩
    · rintro ⟨_, h, h'⟩
      cases h
      exact h'

/-- A message, or a null pointer (`absent`). -/
inductive Message (δ : Type)
  | absent
  | null
  | bool (b : Bool)
  | int (i : Int64)
  | double (x : δ)
  | string (s : Text)
  | binary (data : Text)
  | array (l : List (Message δ))
  | object (m : List (Text × Message δ))

/-- `kBIN_PLACE_HOLDER`. -/
def placeholder : Text := ['_', 'p', 'l', 'a', 'c', 'e', 'h', 'o', 'l', 'd', 'e', 'r']

def num : Text := ['n', 'u', 'm']

/-- The conversion of a number without a sign to `int`. -/
def toInt (n : ℕ) : ℤ := Int.bmod n (2 ^ 32)

theorem toInt_of_lt {n : ℕ} (hn : n < 2 ^ 31) : toInt n = n := by
  unfold toInt
  rw [Int.bmod_eq_of_le] <;> omega

/-- `map[key] = value`.  The members of a map are in the order of their keys. -/
def mapSet {κ α : Type} [DecidableEq κ] [LT κ] [DecidableLT κ] (k : κ) (v : α) :
    List (κ × α) → List (κ × α)
  | [] => [(k, v)]
  | (k', v') :: m =>
    if k = k' then (k, v) :: m
    else if k < k' then (k, v) :: (k', v') :: m
    else (k', v') :: mapSet k v m

/-- The keys are those of a map: each one once, in order. -/
def Ordered {α : Type} (m : List (Text × α)) : Prop := (m.map Prod.fst).Pairwise (· < ·)

theorem mapSet_of_lt {α : Type} {k : Text} (v : α) {m : List (Text × α)}
    (hm : ∀ p ∈ m, p.1 < k) : mapSet k v m = m ++ [(k, v)] := by
  induction m with
  | nil => rfl
  | cons p m ih =>
    have hp := hm p (by simp)
    have hne : k ≠ p.1 := by
      rintro rfl
      exact List.lt_irrefl _ hp
    rw [mapSet, if_neg hne, if_neg (List.lt_asymm hp), ih fun q hq => hm q (by simp [hq])]
    rfl

/-- Setting the members of a map one by one gives the map. -/
theorem foldl_mapSet {α : Type} (m acc : List (Text × α)) (hm : Ordered (acc ++ m)) :
    m.foldl (fun a p => mapSet p.1 p.2 a) acc = acc ++ m := by
  induction m generalizing acc with
  | nil => simp
  | cons p m ih =>
    have hLast : ∀ q ∈ acc, q.1 < p.1 := by
      rw [Ordered, List.map_append, List.pairwise_append] at hm
      intro q hq
      exact hm.2.2 _ (List.mem_map_of_mem hq) _ (by simp)
    rw [List.foldl_cons, mapSet_of_lt _ hLast, ih _ (by simpa using hm)]
    simp

variable {δ : Type}

/-- The payload of a byte string. -/
def attachment (data : Text) : Text := Char.ofNat 4 :: data

mutual

/-- `accept_message`: the document of a message, and the payloads so far with those of the byte
strings of the message. -/
def acceptMessage : Message δ → List Text → Result (Json.Value δ × List Text)
  | .absent, _ => .error .nullPointer
  | .null, buffers => .ok (.null, buffers)
  | .bool b, buffers => .ok (.bool b, buffers)
  | .int i, buffers => .ok (.int i.toInt, buffers)
  | .double x, buffers => .ok (.double x, buffers)
  | .string s, buffers => .ok (.string s, buffers)
  | .binary data, buffers =>
    .ok (.object [(placeholder, .bool true), (num, .int (toInt buffers.length))],
      buffers ++ [attachment data])
  | .array l, buffers => do
    let (l, buffers) ← acceptElements l buffers
    return (.array l, buffers)
  | .object m, buffers => do
    let (m, buffers) ← acceptMembers m buffers
    return (.object m, buffers)

def acceptElements : List (Message δ) → List Text → Result (List (Json.Value δ) × List Text)
  | [], buffers => .ok ([], buffers)
  | msg :: l, buffers => do
    let (v, buffers) ← acceptMessage msg buffers
    let (l, buffers) ← acceptElements l buffers
    return (v :: l, buffers)

def acceptMembers : List (Text × Message δ) → List Text →
    Result (List (Text × Json.Value δ) × List Text)
  | [], buffers => .ok ([], buffers)
  | (k, msg) :: m, buffers => do
    let (v, buffers) ← acceptMessage msg buffers
    let (m, buffers) ← acceptMembers m buffers
    return ((k, v) :: m, buffers)

end

/-- The byte string that an object with a placeholder stands for. -/
def fromPlaceholder (m : List (Text × Json.Value δ)) (buffers : List Text) : Result (Message δ) :=
  match m.lookup num with
  | some (.int n) =>
    if -2 ^ 31 ≤ n ∧ n < 2 ^ 31 then
      if 0 ≤ n ∧ n < toInt buffers.length then .ok (.binary (buffers.getD n.toNat []))
      else .ok .absent
    else .error .assertion
  | _ => .error .assertion

mutual

/-- `from_json`: the message of a document, with the byte strings that came after it. -/
def fromJson : Json.Value δ → List Text → Result (Message δ)
  | .null, _ => .ok .null
  | .bool b, _ => .ok (.bool b)
  | .int i, _ =>
    if -2 ^ 63 ≤ i ∧ i < 2 ^ 63 then .ok (.int (Int64.ofInt i)) else .ok .absent
  | .double x, _ => .ok (.double x)
  | .string s, _ => .ok (.string s)
  | .array l, buffers => do return .array (← fromElements l buffers)
  | .object m, buffers =>
    match m.lookup placeholder with
    | some (.bool true) => fromPlaceholder m buffers
    | some (.bool false) | none => do
      return .object ((← fromMembers m buffers).foldl (fun a p => mapSet p.1 p.2 a) [])
    | some _ => .error .assertion

def fromElements : List (Json.Value δ) → List Text → Result (List (Message δ))
  | [], _ => .ok []
  | v :: l, buffers => do
    let msg ← fromJson v buffers
    return msg :: (← fromElements l buffers)

def fromMembers : List (Text × Json.Value δ) → List Text → Result (List (Text × Message δ))
  | [], _ => .ok []
  | (k, v) :: m, buffers => do
    let msg ← fromJson v buffers
    return (k, msg) :: (← fromMembers m buffers)

end

/-! ### Messages that arrive as they were sent -/

section Valid

variable (exact : δ → Prop)

mutual

/-- No null pointer in a message, maps with their keys in order, and numbers that a text holds
exactly. -/
def Message.Valid : Message δ → Prop
  | .absent => False
  | .double x => exact x
  | .array l => ElementsValid l
  | .object m => Ordered m ∧ MembersValid m
  | .null | .bool _ | .int _ | .string _ | .binary _ => True

def ElementsValid : List (Message δ) → Prop
  | [] => True
  | msg :: l => msg.Valid ∧ ElementsValid l

def MembersValid : List (Text × Message δ) → Prop
  | [] => True
  | (_, msg) :: m => msg.Valid ∧ MembersValid m

end

end Valid

mutual

/-- No object in a message has a member `_placeholder`, unless it is `false`. -/
def Message.Unmarked : Message δ → Prop
  | .array l => ElementsUnmarked l
  | .object m => (m.lookup placeholder = none ∨ m.lookup placeholder = some (.bool false)) ∧
      MembersUnmarked m
  | .absent | .double _ | .null | .bool _ | .int _ | .string _ | .binary _ => True

def ElementsUnmarked : List (Message δ) → Prop
  | [] => True
  | msg :: l => msg.Unmarked ∧ ElementsUnmarked l

def MembersUnmarked : List (Text × Message δ) → Prop
  | [] => True
  | (_, msg) :: m => msg.Unmarked ∧ MembersUnmarked m

end

theorem isInt_int64 (i : Int64) : Json.IsInt i.toInt := by
  have hLow := Int64.le_toInt i
  have hHigh := Int64.toInt_lt i
  constructor <;> omega

theorem isInt_toInt (n : ℕ) : Json.IsInt (toInt n) := by
  have hLow := Int.le_bmod (x := n) (m := 2 ^ 32) (by decide)
  have hHigh := Int.bmod_lt (x := n) (m := 2 ^ 32) (by decide)
  unfold toInt
  constructor <;> omega

theorem fromJson_int64 (i : Int64) (texts : List Text) :
    fromJson (.int i.toInt : Json.Value δ) texts = .ok (.int i) := by
  rw [fromJson, if_pos ⟨Int64.le_toInt i, Int64.toInt_lt i⟩, Int64.ofInt_toInt]

/-- The object of a placeholder gives back the byte string of its number. -/
theorem fromJson_placeholder {n : ℕ} {texts : List Text} (hn : n < texts.length)
    (hLen : texts.length < 2 ^ 31) :
    fromJson (.object [(placeholder, .bool true), (num, .int (toInt n))] : Json.Value δ) texts =
      .ok (.binary (texts.getD n [])) := by
  have hNum : List.lookup num [(placeholder, .bool true), (num, (.int n : Json.Value δ))] =
      some (.int n) := by
    rfl
  rw [toInt_of_lt (by omega), fromJson]
  simp only [List.lookup_cons_self]
  rw [fromPlaceholder, hNum]
  simp only
  rw [if_pos (by omega), toInt_of_lt hLen, if_pos (by omega), Int.toNat_natCast]

/-- The names of the members of an object stay. -/
theorem fromMembers_keys {m : List (Text × Json.Value δ)} {texts : List Text}
    {m' : List (Text × Message δ)} (h : fromMembers m texts = .ok m') :
    m'.map Prod.fst = m.map Prod.fst := by
  induction m generalizing m' with
  | nil =>
    rw [fromMembers] at h
    cases h
    rfl
  | cons p m ih =>
    rw [fromMembers] at h
    obtain ⟨msg, -, h⟩ := Result.bind_eq_ok.1 h
    obtain ⟨m'', hm, h⟩ := Result.bind_eq_ok.1 h
    cases h
    rw [List.map_cons, List.map_cons, ih hm]

/-- What `acceptMessage` answers for a message, when byte strings `ds` came before it. -/
structure Accepted (exact : δ → Prop) (msg : Message δ) (ds : List Text) (v : Json.Value δ)
    (ds' : List Text) : Prop where
  run : acceptMessage msg (ds.map attachment) = .ok (v, (ds ++ ds').map attachment)
  exact : Json.Exact exact v
  bool : ∀ b, v = .bool b ↔ msg = .bool b
  back : ∀ rest, (ds ++ ds' ++ rest).length < 2 ^ 31 →
    (fromJson v (ds ++ ds' ++ rest) = .ok msg ↔ msg.Unmarked)

theorem lookup_eq_none_iff {α : Type} {k : Text} {m : List (Text × α)} :
    m.lookup k = none ↔ k ∉ m.map Prod.fst := by
  rw [List.lookup_eq_none_iff, List.mem_map]
  constructor
  · rintro h ⟨p, hp, rfl⟩
    simpa using h p hp
  · intro h p hp
    have hne : k ≠ p.1 := fun hk => h ⟨p, hp, hk.symm⟩
    simpa using hne

theorem fromPlaceholder_ne_object (m' : List (Text × Json.Value δ)) (texts : List Text)
    (m : List (Text × Message δ)) : fromPlaceholder m' texts ≠ .ok (.object m) := by
  unfold fromPlaceholder
  split
  · split
    · split <;> nofun
    · nofun
  · nofun

/-- An object reads back as its members do, unless it has a placeholder. -/
theorem fromJson_object {m : List (Text × Message δ)} {m' : List (Text × Json.Value δ)}
    {texts : List Text} (hOrdered : Ordered m) (hKeys : m'.map Prod.fst = m.map Prod.fst)
    (hLookup :
      ∀ b, m'.lookup placeholder = some (.bool b) ↔ m.lookup placeholder = some (.bool b)) :
    fromJson (.object m') texts = .ok (.object m) ↔
      (m.lookup placeholder = none ∨ m.lookup placeholder = some (.bool false)) ∧
        fromMembers m' texts = .ok m := by
  have hNone : m'.lookup placeholder = none ↔ m.lookup placeholder = none := by
    rw [lookup_eq_none_iff, lookup_eq_none_iff, hKeys]
  have hRead : (do
      return .object ((← fromMembers m' texts).foldl (fun a p => mapSet p.1 p.2 a) []) :
      Result (Message δ)) = .ok (.object m) ↔ fromMembers m' texts = .ok m := by
    constructor
    · intro h
      obtain ⟨m'', hm, h⟩ := Result.bind_eq_ok.1 h
      have hOrdered' : Ordered ([] ++ m'') := by
        rwa [List.nil_append, Ordered, fromMembers_keys hm, hKeys]
      rw [foldl_mapSet m'' [] hOrdered'] at h
      cases h
      exact hm
    · intro h
      rw [h]
      show Except.ok _ = _
      rw [foldl_mapSet m [] hOrdered, List.nil_append]
  rw [fromJson]
  split
  · rename_i hTrue
    rw [(hLookup true).1 hTrue]
    constructor
    · intro h
      exact absurd h (fromPlaceholder_ne_object m' texts m)
    · rintro ⟨h | h, -⟩ <;> cases h
  · rename_i hFalse
    rw [(hLookup false).1 hFalse, hRead]
    simp
  · rename_i hNo
    rw [hNone.1 hNo, hRead]
    simp
  · rename_i v hTrue hFalse hSome
    constructor
    · intro h
      cases h
    · rintro ⟨h | h, -⟩
      · rw [hNone.2 h] at hSome
        cases hSome
      · rw [(hLookup false).2 h] at hSome
        cases hSome
        exact absurd rfl hFalse

theorem Accepted.plain {exact : δ → Prop} {msg : Message δ} {ds : List Text} {v : Json.Value δ}
    (hRun : ∀ buffers, acceptMessage msg buffers = .ok (v, buffers)) (hExact : Json.Exact exact v)
    (hBool : ∀ b, v = .bool b ↔ msg = .bool b) (hBack : ∀ texts, fromJson v texts = .ok msg)
    (hUnmarked : msg.Unmarked) : Accepted exact msg ds v [] where
  run := by rw [hRun, List.append_nil]
  exact := hExact
  bool := hBool
  back := fun rest _ => by simp only [hBack, hUnmarked]

mutual

theorem accepted (exact : δ → Prop) (msg : Message δ) (hValid : msg.Valid exact) (ds : List Text) :
    ∃ v ds', Accepted exact msg ds v ds' := by
  match msg with
  | .null =>
    exact ⟨.null, [], .plain (fun _ => rfl) trivial (by simp) (fun _ => rfl) trivial⟩
  | .bool b =>
    exact ⟨.bool b, [], .plain (fun _ => rfl) trivial (by simp) (fun _ => rfl) trivial⟩
  | .int i =>
    exact ⟨.int i.toInt, [],
      .plain (fun _ => rfl) (isInt_int64 i) (by simp) (fromJson_int64 i) trivial⟩
  | .double x =>
    exact ⟨.double x, [], .plain (fun _ => rfl) hValid (by simp) (fun _ => rfl) trivial⟩
  | .string s =>
    exact ⟨.string s, [], .plain (fun _ => rfl) trivial (by simp) (fun _ => rfl) trivial⟩
  | .binary data =>
    refine ⟨.object [(placeholder, .bool true), (num, .int (toInt ds.length))], [data], ?_, ?_,
      by simp, ?_⟩
    · rw [acceptMessage, List.length_map, List.map_append]
      rfl
    · exact ⟨trivial, isInt_toInt _, trivial⟩
    · intro rest hLen
      rw [fromJson_placeholder (by simp) hLen]
      simp [Message.Unmarked]
  | .array l =>
    obtain ⟨vs, ds', hRun, hExact, hBack⟩ := acceptedElements exact l hValid ds
    refine ⟨.array vs, ds', ?_, hExact, by simp, ?_⟩
    · rw [acceptMessage, hRun]
      rfl
    · intro rest hLen
      rw [Message.Unmarked, ← hBack rest hLen, fromJson]
      constructor
      · intro h
        obtain ⟨l', hl, h⟩ := Result.bind_eq_ok.1 h
        cases h
        exact hl
      · intro h
        rw [h]
        rfl
  | .object m =>
    obtain ⟨m', ds', hRun, hExact, hKeys, hLookup, hBack⟩ := acceptedMembers exact m hValid.2 ds
    refine ⟨.object m', ds', ?_, hExact, by simp, ?_⟩
    · rw [acceptMessage, hRun]
      rfl
    · intro rest hLen
      rw [Message.Unmarked, ← hBack rest hLen]
      exact fromJson_object hValid.1 hKeys (hLookup placeholder)

theorem acceptedElements (exact : δ → Prop) (l : List (Message δ)) (hValid : ElementsValid exact l)
    (ds : List Text) : ∃ vs ds',
      acceptElements l (ds.map attachment) = .ok (vs, (ds ++ ds').map attachment) ∧
      Json.ExactAll exact vs ∧
      ∀ rest, (ds ++ ds' ++ rest).length < 2 ^ 31 →
        (fromElements vs (ds ++ ds' ++ rest) = .ok l ↔ ElementsUnmarked l) := by
  match l with
  | [] =>
    refine ⟨[], [], ?_, trivial, ?_⟩
    · rw [acceptElements, List.append_nil]
    · intro rest hLen
      simp [fromElements, ElementsUnmarked]
  | msg :: l =>
    obtain ⟨v, ds₁, hv⟩ := accepted exact msg hValid.1 ds
    obtain ⟨vs, ds₂, hRun, hExact, hBack⟩ := acceptedElements exact l hValid.2 (ds ++ ds₁)
    refine ⟨v :: vs, ds₁ ++ ds₂, ?_, ⟨hv.exact, hExact⟩, ?_⟩
    · rw [acceptElements, hv.run, Result.ok_bind]
      simp only
      rw [hRun, ← List.append_assoc]
      rfl
    · intro rest hLen
      have hHead := hv.back (ds₂ ++ rest) (by simpa using hLen)
      have hTail := hBack rest (by simpa using hLen)
      rw [← List.append_assoc] at hLen ⊢
      rw [← List.append_assoc] at hHead
      rw [ElementsUnmarked, ← hHead, ← hTail, fromElements]
      constructor
      · intro h
        obtain ⟨msg', hMsg, h⟩ := Result.bind_eq_ok.1 h
        obtain ⟨l', hl, h⟩ := Result.bind_eq_ok.1 h
        cases h
        exact ⟨hMsg, hl⟩
      · rintro ⟨hMsg, hl⟩
        rw [hMsg, Result.ok_bind, hl]
        rfl

theorem acceptedMembers (exact : δ → Prop) (m : List (Text × Message δ))
    (hValid : MembersValid exact m) (ds : List Text) : ∃ m' ds',
      acceptMembers m (ds.map attachment) = .ok (m', (ds ++ ds').map attachment) ∧
      Json.ExactMembers exact m' ∧ m'.map Prod.fst = m.map Prod.fst ∧
      (∀ k b, m'.lookup k = some (.bool b) ↔ m.lookup k = some (.bool b)) ∧
      ∀ rest, (ds ++ ds' ++ rest).length < 2 ^ 31 →
        (fromMembers m' (ds ++ ds' ++ rest) = .ok m ↔ MembersUnmarked m) := by
  match m with
  | [] =>
    refine ⟨[], [], ?_, trivial, rfl, by simp, ?_⟩
    · rw [acceptMembers, List.append_nil]
    · intro rest hLen
      simp [fromMembers, MembersUnmarked]
  | (k, msg) :: m =>
    obtain ⟨v, ds₁, hv⟩ := accepted exact msg hValid.1 ds
    obtain ⟨m', ds₂, hRun, hExact, hKeys, hLookup, hBack⟩ :=
      acceptedMembers exact m hValid.2 (ds ++ ds₁)
    refine ⟨(k, v) :: m', ds₁ ++ ds₂, ?_, ⟨hv.exact, hExact⟩, ?_, ?_, ?_⟩
    · rw [acceptMembers, hv.run, Result.ok_bind]
      simp only
      rw [hRun, ← List.append_assoc]
      rfl
    · rw [List.map_cons, List.map_cons, hKeys]
    · intro k' b
      by_cases hk : k' = k
      · rw [hk, List.lookup_cons_self, List.lookup_cons_self, Option.some_inj, Option.some_inj]
        exact hv.bool b
      · rw [List.lookup_cons, List.lookup_cons, beq_false_of_ne hk]
        exact hLookup k' b
    · intro rest hLen
      have hHead := hv.back (ds₂ ++ rest) (by simpa using hLen)
      have hTail := hBack rest (by simpa using hLen)
      rw [← List.append_assoc] at hLen ⊢
      rw [← List.append_assoc] at hHead
      rw [MembersUnmarked, ← hHead, ← hTail, fromMembers]
      constructor
      · intro h
        obtain ⟨msg', hMsg, h⟩ := Result.bind_eq_ok.1 h
        obtain ⟨l', hl, h⟩ := Result.bind_eq_ok.1 h
        cases h
        exact ⟨hMsg, hl⟩
      · rintro ⟨hMsg, hl⟩
        rw [hMsg, Result.ok_bind, hl]
        rfl

end

/-- A message comes back from the text of its document and its byte strings exactly when no object
in it has a member `_placeholder` other than `false`. -/
theorem message_round_trip_iff (fmt : Json.Format δ) (msg : Message δ)
    (hValid : msg.Valid fmt.exact) :
    ∃ v ds, acceptMessage msg [] = .ok (v, ds.map attachment) ∧
      (ds.length < 2 ^ 31 →
        ((fmt.parse (fmt.write v)).map (fromJson · ds) = some (.ok msg) ↔ msg.Unmarked)) := by
  obtain ⟨v, ds, hRun, hExact, -, hBack⟩ := accepted fmt.exact msg hValid []
  refine ⟨v, ds, by simpa using hRun, fun hLen => ?_⟩
  have h := hBack [] (by simpa using hLen)
  rw [List.nil_append, List.append_nil] at h
  rw [fmt.parse_write v hExact, Option.map_some, Option.some_inj]
  exact h

/-- A byte string in an array, beside an object with the member `_placeholder`. -/
def nested : Message Empty :=
  .array [.string ['s'], .array [.binary [Char.ofNat 0, 'x'], .int (-7)],
    .object [(placeholder, .bool false), (['k'], .null)]]

theorem message_round_trip_nested :
    ∃ v ds, acceptMessage nested [] = .ok (v, ds.map attachment) ∧
      (ds.length < 2 ^ 31 →
        ((Json.compact.parse (Json.compact.write v)).map (fromJson · ds) = some (.ok nested) ↔
          nested.Unmarked)) :=
  message_round_trip_iff Json.compact nested
    ⟨trivial, ⟨trivial, trivial, trivial⟩,
      ⟨by unfold Ordered; decide, trivial, trivial, trivial⟩, trivial⟩

end Sio
