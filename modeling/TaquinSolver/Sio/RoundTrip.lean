import TaquinSolver.Sio.Packet

/-! What the peer's manager makes of the payloads of a packet: the same packet. -/

namespace Sio

open Java (Text intToText)

variable {δ : Type}

/-! ### Positions in a text -/

theorem findFirstOf_append {set : List Char} {c : Char} (pre : Text) {mid : Text} (rest : Text)
    (hMid : ∀ x ∈ mid, x ∉ set) (hc : c ∈ set) :
    findFirstOf set (pre ++ (mid ++ c :: rest)) pre.length = some (pre.length + mid.length) := by
  rw [findFirstOf, List.drop_left, List.findIdx?_append]
  have hNone : mid.findIdx? (· ∈ set) = none := by
    simpa [List.findIdx?_eq_none_iff] using hMid
  rw [hNone, List.findIdx?_cons]
  simp [hc, Nat.add_comm]

theorem findFirstOf_none {set : List Char} (pre : Text) {rest : Text}
    (hRest : ∀ x ∈ rest, x ∉ set) :
    findFirstOf set (pre ++ rest) pre.length = none := by
  rw [findFirstOf, List.drop_left, Option.map_eq_none_iff]
  simpa [List.findIdx?_eq_none_iff] using hRest

theorem substr_append (pre mid rest : Text) :
    substr (pre ++ (mid ++ rest)) pre.length (some (pre.length + mid.length)) = mid := by
  rw [substr]
  simp

namespace Packet

/-- The identifier of a packet has only digits. -/
theorem isDigit_of_mem_idText {p : Packet δ} {c : Char} (h : c ∈ p.idText) : c.isDigit = true := by
  unfold idText at h
  split at h
  · obtain ⟨n, hn⟩ := Int.eq_ofNat_of_zero_le ‹0 ≤ p.packId›
    rw [hn] at h
    exact Java.isDigit_of_mem_intToText h
  · cases h

theorem notMem_idText {p : Packet δ} {set : List Char} (hSet : set.any Char.isDigit = false) :
    ∀ x ∈ p.idText, x ∉ set := by
  intro x hx hMem
  rw [List.any_eq_false] at hSet
  exact hSet x hMem (isDigit_of_mem_idText hx)

/-- The identifier that stands in front of a document is read, and the document after it. -/
theorem parseMessage_text (lib : Library δ) {p q : Packet δ} (hLow : -1 ≤ p.packId)
    (hHigh : p.packId < 2 ^ 31) (hq : q.packId = -1) (pre json : Text) :
    q.parseMessage lib (pre ++ (p.idText ++ json)) pre.length (pre.length + p.idText.length) =
      { q with packId := p.packId }.putDocument lib json := by
  have hDrop : (pre ++ (p.idText ++ json)).drop (pre.length + p.idText.length) = json := by
    rw [← List.append_assoc, ← List.length_append, List.drop_left]
  rw [parseMessage, substr_append, hDrop]
  by_cases hId : 0 ≤ p.packId
  · obtain ⟨n, hn⟩ := Int.eq_ofNat_of_zero_le hId
    have hText : p.idText = Nat.toDigits 10 n := by
      rw [idText, if_pos hId, hn, Java.intToText_natCast]
    have hPos : 0 < p.idText.length := by
      rw [hText]
      exact List.length_pos_of_ne_nil Nat.toDigits_ne_nil
    rw [if_pos (by omega), hText, lib.castInt_digits n (by omega), hn]
  · have hText : p.idText = [] := by rw [idText, if_neg hId]
    rw [if_neg (by rw [hText]; simp), show p.packId = q.packId by omega]

/-- A namespace that a text can hold. -/
def IsNamespace (nsp : Text) : Prop := nsp = [] ∨ ∃ rest, nsp = '/' :: rest ∧ ',' ∉ rest

/-- The namespace that the peer reads. -/
def normal (nsp : Text) : Text := if nsp = [] then ['/'] else nsp

theorem nspText_eq {p : Packet δ} (h : IsNamespace p.nsp) :
    (p.nspText = [] ∧ normal p.nsp = ['/']) ∨
    ∃ rest, p.nsp = '/' :: rest ∧ ',' ∉ rest ∧ normal p.nsp = '/' :: rest ∧
      p.nspText =
        '/' :: rest ++ if p.message.isAbsent = false ∨ 0 ≤ p.packId then [','] else [] := by
  rcases h with h | ⟨rest, h, hComma⟩
  · left
    rw [nspText, normal, if_neg (by simp [h]), if_pos h]
    exact ⟨rfl, rfl⟩
  · by_cases hRest : rest = []
    · left
      subst hRest
      rw [nspText, normal, if_neg (by simp [h]), if_neg (by simp [h]), h]
      exact ⟨rfl, rfl⟩
    · right
      refine ⟨rest, h, hComma, by rw [normal, if_neg (by simp [h]), h], ?_⟩
      rw [nspText, if_pos (by simp [h, hRest]), h]

theorem findSlash (pre rest : Text) :
    findFirstOf [Json.openBrace, '[', Json.quote, '/'] (pre ++ '/' :: rest) pre.length =
      some pre.length :=
  findFirstOf_append pre rest (List.forall_mem_nil _) (by simp)

theorem getElem?_slash (pre rest : Text) : (pre ++ '/' :: rest)[pre.length]? = some '/' := by
  simp

/-- The namespace before a comma is read, and what follows it is a message or nothing. -/
theorem parseBody_comma (lib : Library δ) (q : Packet δ) {pre rest : Text} (tail : Text)
    (hPre : ',' ∉ pre) (hRest : ',' ∉ rest) {found : Option ℕ}
    (hFound : findFirstOf [Json.quote, '[', Json.openBrace] ((pre ++ '/' :: rest ++ [',']) ++ tail)
      (pre ++ '/' :: rest ++ [',']).length = found) :
    q.parseBody lib (pre ++ ('/' :: rest ++ ',' :: tail)) pre.length =
      found.elim (.ok ({ q with nsp := '/' :: rest }, false)) fun jsonPos =>
        { q with nsp := '/' :: rest }.parseMessage lib ((pre ++ '/' :: rest ++ [',']) ++ tail)
          (pre ++ '/' :: rest ++ [',']).length jsonPos := by
  have hComma : findFirstOf [','] (pre ++ ('/' :: rest ++ ',' :: tail)) 0 =
      some (pre.length + ('/' :: rest).length) := by
    have hMid : ∀ x ∈ pre ++ '/' :: rest, x ∉ [','] := by
      intro x hx hMem
      rw [List.mem_singleton] at hMem
      subst hMem
      simp [hPre, hRest] at hx
    have h := findFirstOf_append [] tail hMid (List.mem_singleton_self ',')
    simpa using h
  have hLength : (pre ++ '/' :: rest ++ [',']).length = pre.length + ('/' :: rest).length + 1 := by
    simp
    omega
  have hText : pre ++ '/' :: rest ++ [','] ++ tail = pre ++ ('/' :: rest ++ ',' :: tail) := by simp
  rw [hLength, hText] at hFound
  rw [hLength, hText, parseBody, List.cons_append, findSlash]
  simp only
  rw [if_pos (getElem?_slash pre _), ← List.cons_append, hComma]
  simp only
  rw [hFound, substr_append]
  cases found with
  | none => rfl
  | some jsonPos => rfl

/-- Without a message the text ends with the namespace, or with an identifier that is not read. -/
theorem parseBody_absent (lib : Library δ) {p : Packet δ} (q : Packet δ) (hNsp : IsNamespace p.nsp)
    (hMsg : p.message.isAbsent = true) {pre : Text} (hPre : ',' ∉ pre) :
    q.parseBody lib (pre ++ (p.nspText ++ p.idText)) pre.length =
      .ok ({ q with nsp := normal p.nsp }, false) := by
  rcases nspText_eq hNsp with ⟨hText, hNormal⟩ | ⟨rest, -, hComma, hNormal, hText⟩
  · rw [hText, List.nil_append, parseBody,
      findFirstOf_none _ (notMem_idText (by decide)), hNormal]
  · rw [hText, hNormal]
    by_cases hId : 0 ≤ p.packId
    · rw [if_pos (.inr hId), List.append_assoc, List.singleton_append,
        parseBody_comma lib q p.idText hPre hComma (findFirstOf_none _ (notMem_idText (by decide)))]
      rfl
    · have hNo : findFirstOf [','] (pre ++ '/' :: rest) 0 = none := by
        have hMid : ∀ x ∈ pre ++ '/' :: rest, x ∉ [','] := by
          intro x hx hMem
          rw [List.mem_singleton] at hMem
          subst hMem
          simp [hPre, hComma] at hx
        simpa using findFirstOf_none [] hMid
      rw [if_neg (by simp [hMsg, hId]), idText, if_neg hId, List.append_nil, List.append_nil,
        parseBody, findSlash]
      simp only
      rw [if_pos (getElem?_slash pre _), hNo, List.drop_left]

/-- With a message, its document is found after the namespace and the identifier. -/
theorem parseBody_present (lib : Library δ) {p q : Packet δ} (hNsp : IsNamespace p.nsp)
    (hMsg : p.message.isAbsent = false) (hLow : -1 ≤ p.packId) (hHigh : p.packId < 2 ^ 31)
    (hq : q.packId = -1) {pre : Text} (hPre : ',' ∉ pre) {c : Char} (json : Text)
    (hc : c ∈ [Json.quote, '[', Json.openBrace]) :
    q.parseBody lib (pre ++ (p.nspText ++ (p.idText ++ c :: json))) pre.length =
      { q with nsp := normal p.nsp, packId := p.packId }.putDocument lib (c :: json) := by
  rcases nspText_eq hNsp with ⟨hText, hNormal⟩ | ⟨rest, -, hComma, hNormal, hText⟩
  · have hFind : findFirstOf [Json.openBrace, '[', Json.quote, '/']
        (pre ++ (p.idText ++ c :: json)) pre.length = some (pre.length + p.idText.length) :=
      findFirstOf_append _ _ (notMem_idText (by decide)) (by revert hc; simp; tauto)
    have hHead : (pre ++ (p.idText ++ c :: json))[pre.length + p.idText.length]? ≠ some '/' := by
      rw [← List.append_assoc, ← List.length_append, List.getElem?_append_right le_rfl,
        Nat.sub_self, List.getElem?_cons_zero]
      rintro ⟨⟩
      revert hc
      decide
    rw [hText, List.nil_append, parseBody, hFind]
    simp only
    rw [if_neg hHead, parseMessage_text lib (q := { q with nsp := ['/'] }) hLow hHigh hq, hNormal]
  · rw [hText, hNormal, if_pos (.inl hMsg), List.append_assoc, List.singleton_append,
      parseBody_comma lib q _ hPre hComma (findFirstOf_append _ _ (notMem_idText (by decide)) hc)]
    exact parseMessage_text lib (q := { q with nsp := '/' :: rest }) hLow hHigh hq _ _

/-! ### From one packet to its payloads and back -/

/-- The document of the message begins with a bracket, a brace or a quotation mark. -/
def Bracketed : Message δ → Prop
  | .string _ | .binary _ | .array _ | .object _ => True
  | .absent | .null | .bool _ | .int _ | .double _ => False

/-- The message of a packet has byte strings. -/
def hasBinary (p : Packet δ) : Bool :=
  match acceptMessage p.message [] with
  | .ok (_, _ :: _) => true
  | _ => false

/-- The packets that the peer reads back. -/
structure Sendable (lib : Library δ) (p : Packet δ) : Prop where
  frame : p.frame = FrameType.message
  type : 0 ≤ PacketType.determined p.type ∧ PacketType.determined p.type ≤ PacketType.error
  nsp : IsNamespace p.nsp
  packId : -1 ≤ p.packId ∧ p.packId < 2 ^ 31
  message : p.message.isAbsent = true ∨
    Bracketed p.message ∧ p.message.Valid lib.exact ∧ p.message.Unmarked
  attachments : ∀ v buffers, acceptMessage p.message [] = .ok (v, buffers) → buffers.length < 2 ^ 31
  binary : p.hasBinary = true →
    PacketType.determined p.type = PacketType.event ∨ PacketType.determined p.type = PacketType.ack

/-- What the peer reads of a packet: its type tells whether its message has byte strings, the empty
namespace is that of the root, and an identifier without a message is lost. -/
def received (p : Packet δ) : Packet δ :=
  { p with
    type := if p.frame = FrameType.message then sentType p.type p.hasBinary else p.type
    nsp := normal p.nsp
    packId := if p.message.isAbsent then -1 else p.packId
    pendingBuffers := 0
    buffers := [] }

theorem write_head (lib : Library δ) {msg : Message δ} (hMsg : Bracketed msg)
    {buffers buffers' : List Text} {v : Json.Value δ}
    (h : acceptMessage msg buffers = .ok (v, buffers')) :
    ∃ c json, lib.write v = c :: json ∧ c ∈ [Json.quote, '[', Json.openBrace] := by
  have hHead : ∃ c ∈ [Json.quote, '[', Json.openBrace], (lib.write v).head? = some c := by
    cases msg with
    | string s =>
      cases h
      exact ⟨_, by decide, lib.write_string s⟩
    | binary data =>
      cases h
      exact ⟨_, by decide, lib.write_object _⟩
    | array l =>
      rw [acceptMessage] at h
      obtain ⟨⟨vs, bs⟩, -, h⟩ := Result.bind_eq_ok.1 h
      cases h
      exact ⟨_, by decide, lib.write_array vs⟩
    | object m =>
      rw [acceptMessage] at h
      obtain ⟨⟨vs, bs⟩, -, h⟩ := Result.bind_eq_ok.1 h
      cases h
      exact ⟨_, by decide, lib.write_object vs⟩
    | absent | null | bool | int | double => cases hMsg
  obtain ⟨c, hc, hHead⟩ := hHead
  obtain ⟨json, hText⟩ := List.head?_eq_some_iff.1 hHead
  exact ⟨c, json, hText, hc⟩

/-- The text of a document is read back, also where its end is that of the payload. -/
theorem parseDocument_write (lib : Library δ) {v : Json.Value δ} (hv : Json.Exact lib.exact v) :
    parseDocument lib (lib.write v) = v := by
  have hTake : (lib.write v).takeWhile (· ≠ Char.ofNat 0) = lib.write v := by
    rw [List.takeWhile_eq_self_iff]
    intro c hc
    simpa using ne_of_mem_of_not_mem hc (lib.nul_notMem v)
  rw [parseDocument, hTake, lib.parse_write v hv, Option.getD_some]

/-- A type is written as one digit. -/
theorem intToText_type {t : ℤ} (hLow : 0 ≤ t) (hHigh : t ≤ 6) :
    ∃ c, intToText t = [c] ∧ charValue c - 48 = t ∧ c ≠ ',' ∧ c ≠ '-' := by
  have h : ∀ n < 7, Nat.toDigits 10 n = [Nat.digitChar n] ∧
      charValue (Nat.digitChar n) - 48 = n ∧ Nat.digitChar n ≠ ',' ∧ Nat.digitChar n ≠ '-' := by
    decide
  obtain ⟨n, rfl⟩ := Int.eq_ofNat_of_zero_le hLow
  rw [Java.intToText_natCast]
  exact ⟨_, h n (by omega)⟩

theorem sentType_range {t : ℤ} (hLow : 0 ≤ PacketType.determined t)
    (hHigh : PacketType.determined t ≤ PacketType.error) (hasBinary : Bool) :
    0 ≤ sentType t hasBinary ∧ sentType t hasBinary ≤ 6 := by
  unfold sentType
  split
  · split <;> decide
  · split
    · split <;> decide
    · exact ⟨hLow, Int.le_trans hHigh (by decide)⟩

/-- The type tells the peer whether payloads of byte strings follow. -/
theorem sentType_binary {t : ℤ} (hHigh : PacketType.determined t ≤ PacketType.error)
    {b : Bool} (h : b = true →
      PacketType.determined t = PacketType.event ∨ PacketType.determined t = PacketType.ack) :
    PacketType.IsBinary (sentType t b) ↔ b = true := by
  unfold sentType
  cases b with
  | false =>
    split
    · decide
    · split
      · decide
      · have hNo : ∀ k, PacketType.error < k → PacketType.determined t ≠ k := by omega
        exact iff_of_false (not_or_intro (hNo _ (by decide)) (hNo _ (by decide))) (by decide)
  | true =>
    rcases h rfl with h | h <;> rw [h] <;> decide

theorem parseBuffer_last (lib : Library δ) {p : Packet δ} {d json : Text} {done : List Text}
    {msg : Message δ} (hPending : p.pendingBuffers = 1) (hBuffers : p.buffers = json :: done)
    (hMsg : fromJson (parseDocument lib json) (done ++ [d]) = .ok msg) :
    p.parseBuffer lib (attachment d) =
      .ok ({ p with message := msg, pendingBuffers := 0, buffers := [] }, false) := by
  have hBinary : isBinaryMessage (attachment d) = true := by rfl
  rw [parseBuffer, hPending, if_pos (by decide), if_pos hBinary]
  simp only
  rw [if_pos (by decide), hBuffers, List.cons_append]
  simp only
  rw [show (attachment d).tail = d from rfl, hMsg]
  rfl

theorem parseBuffer_next (lib : Library δ) {p : Packet δ} {k : ℕ} (d : Text)
    (hPending : p.pendingBuffers = k + 2) :
    p.parseBuffer lib (attachment d) =
      .ok ({ p with buffers := p.buffers ++ [d], pendingBuffers := k + 1 }, true) := by
  have hBinary : isBinaryMessage (attachment d) = true := by rfl
  rw [parseBuffer, hPending, if_pos (by omega), if_pos hBinary]
  simp only
  rw [if_neg (by omega)]
  rfl

theorem putPayload_text {lib : Library δ} {p : Packet δ} {b : Text} {more : Bool}
    (hb : isTextMessage b = true) (hp : new.parse lib b = .ok (p, more))
    (waiting : Option (Packet δ)) :
    putPayload lib waiting b = .ok (if more then (some p, none) else (waiting, some p)) := by
  unfold putPayload
  rw [if_pos hb, hp]
  rfl

theorem putPayload_attachment {lib : Library δ} {p q : Packet δ} {d : Text} {more : Bool}
    (h : p.parseBuffer lib (attachment d) = .ok (q, more)) :
    putPayload lib (some p) (attachment d) =
      .ok (if more then (some q, none) else (none, some q)) := by
  have hText : isTextMessage (attachment d) = false := by rfl
  have hBinary : isBinaryMessage (attachment d) = true := by rfl
  rw [putPayload, if_neg (by simp [hText]), if_pos hBinary]
  simp only
  rw [h]
  rfl

theorem putPayloads_cons {lib : Library δ} {waiting waiting' : Option (Packet δ)} {b : Text}
    {decoded : Option (Packet δ)} (h : putPayload lib waiting b = .ok (waiting', decoded))
    (bs : List Text) :
    putPayloads lib waiting (b :: bs) =
      (putPayloads lib waiting' bs).map fun r => (r.1, decoded.toList ++ r.2) := by
  rw [putPayloads, h]
  rfl

/-- The payloads of the byte strings complete a packet that waits for them. -/
theorem putPayloads_attachments (lib : Library δ) {p : Packet δ} {json : Text} (done : List Text)
    {ds : List Text} {msg : Message δ} (hDs : ds ≠ []) (hPending : p.pendingBuffers = ds.length)
    (hBuffers : p.buffers = json :: done)
    (hMsg : fromJson (parseDocument lib json) (done ++ ds) = .ok msg) :
    putPayloads lib (some p) (ds.map attachment) =
      .ok (none, [{ p with message := msg, pendingBuffers := 0, buffers := [] }]) := by
  -- the packet keeps waiting until its last byte string
  induction ds generalizing p done with
  | nil => exact absurd rfl hDs
  | cons d ds ih =>
    rw [List.map_cons]
    cases ds with
    | nil =>
      rw [putPayloads_cons (putPayload_attachment (parseBuffer_last lib hPending hBuffers hMsg))]
      rfl
    | cons d' ds =>
      have hNext := putPayload_attachment (parseBuffer_next lib d hPending)
      rw [if_pos rfl] at hNext
      rw [putPayloads_cons hNext,
        ih (done ++ [d]) (by simp) rfl (by simp [hBuffers]) (by simpa using hMsg)]
      rfl

/-! ### The text of a packet -/

/-- What the peer reads of the text of a packet, before the payloads of its byte strings. -/
def waiting (p : Packet δ) (json : Text) (n : ℕ) : Packet δ :=
  { p.received with message := .absent, pendingBuffers := n, buffers := [json] }

/-- What `accept` makes of a packet that can be sent, and what `parse` makes of its text. -/
structure Transmitted (lib : Library δ) (p p' : Packet δ) (text : Text) (ds : List Text) :
    Prop where
  accept : p.accept lib = .ok (p', text, ds.map attachment)
  hasBinary : p.hasBinary = true ↔ ds ≠ []
  isText : isTextMessage text = true
  whole : ds = [] → new.parse lib text = .ok (p.received, false)
  begun : ds ≠ [] → ∃ json v, acceptMessage p.message [] = .ok (v, ds.map attachment) ∧
    parseDocument lib json = v ∧ fromJson v ds = .ok p.message ∧
    new.parse lib text = .ok (p.waiting json ds.length, true)

/-- The text begins with the frame and the type, and the rest is read after them. -/
theorem parse_plain (lib : Library δ) {c : Char} {t : ℤ} (body : Text)
    (hType : charValue c - 48 = t) (hRange : 0 ≤ t ∧ t ≤ 6)
    (hPlain : ¬PacketType.IsBinary t) :
    (new : Packet δ).parse lib ('4' :: c :: body) =
      parseBody lib { new with frame := FrameType.message, type := t } ('4' :: c :: body) 2 := by
  have hText : isBinaryMessage ('4' :: c :: body) = false := by rfl
  have hOffset : offset ('4' :: c :: body) 1 = t := hType
  rw [parse, if_neg (by simp [hText])]
  simp only
  rw [if_pos (by rfl), hOffset, if_neg (by
    simp only [PacketType.connect, PacketType.binaryAck]
    omega), if_neg hPlain]
  rfl

theorem parse_binary (lib : Library δ) {c : Char} {t : ℤ} {n : ℕ} (body : Text)
    (hType : charValue c - 48 = t) (hRange : 0 ≤ t ∧ t ≤ 6) (hc : c ≠ '-')
    (hBinary : PacketType.IsBinary t) (hn : n < 2 ^ 32) :
    (new : Packet δ).parse lib ('4' :: c :: (Nat.toDigits 10 n ++ '-' :: body)) =
      parseBody lib { new with frame := FrameType.message, type := t, pendingBuffers := n }
        ('4' :: c :: Nat.toDigits 10 n ++ ['-'] ++ body)
        ('4' :: c :: Nat.toDigits 10 n ++ ['-']).length := by
  have hText : isBinaryMessage ('4' :: c :: (Nat.toDigits 10 n ++ '-' :: body)) = false := by rfl
  have hOffset : offset ('4' :: c :: (Nat.toDigits 10 n ++ '-' :: body)) 1 = t := hType
  have hScore : findFirstOf ['-'] ('4' :: c :: (Nat.toDigits 10 n ++ '-' :: body)) 0 =
      some (2 + (Nat.toDigits 10 n).length) := by
    have hMid : ∀ x ∈ '4' :: c :: Nat.toDigits 10 n, x ∉ ['-'] := by
      intro x hx hMem
      rw [List.mem_singleton] at hMem
      subst hMem
      rcases List.mem_cons.1 hx with hx | hx
      · cases hx
      · rcases List.mem_cons.1 hx with hx | hx
        · exact hc hx.symm
        · exact absurd (Nat.isDigit_of_mem_toDigits (by decide) (by decide) hx) (by decide)
    have h := findFirstOf_append [] body hMid (List.mem_singleton_self '-')
    rw [List.nil_append, List.length_nil, Nat.zero_add, List.length_cons, List.length_cons] at h
    rw [Nat.add_comm]
    exact h
  have hSubstr := substr_append ['4', c] (Nat.toDigits 10 n) ('-' :: body)
  rw [parse, if_neg (by simp [hText])]
  simp only
  rw [if_pos (by rfl), hOffset, if_neg (by
    simp only [PacketType.connect, PacketType.binaryAck]
    omega), if_pos hBinary, hScore]
  rw [show substr ('4' :: c :: (Nat.toDigits 10 n ++ '-' :: body)) 2
    (some (2 + (Nat.toDigits 10 n).length)) = Nat.toDigits 10 n from hSubstr,
    lib.castUnsigned_digits n hn]
  have hLength : ('4' :: c :: Nat.toDigits 10 n ++ ['-']).length =
      2 + (Nat.toDigits 10 n).length + 1 := by
    simp
    omega
  rw [hLength, List.append_assoc]
  rfl

theorem accept_text (lib : Library δ) {p : Packet δ} (hFrame : p.frame = FrameType.message)
    {json : Text} (h : acceptDocument lib p.message = .ok (json, [])) :
    p.accept lib = .ok ({ p with type := sentType p.type false },
      '4' :: (intToText (sentType p.type false) ++ (p.nspText ++ (p.idText ++ json))), []) := by
  have hChar : Char.ofNat ((p.frame + 48) % 256).toNat = '4' := by
    rw [hFrame]
    rfl
  rw [accept, if_neg (by simpa using hFrame), h, hChar]
  simp only [Result.ok_bind, countText, List.append_assoc]
  rfl

theorem accept_binary (lib : Library δ) {p : Packet δ} (hFrame : p.frame = FrameType.message)
    {json : Text} {ds : List Text} (hDs : ds ≠ [])
    (h : acceptDocument lib p.message = .ok (json, ds.map attachment)) :
    p.accept lib = .ok ({ p with type := sentType p.type true },
      '4' :: (intToText (sentType p.type true) ++ (Nat.toDigits 10 ds.length ++ '-' ::
        (p.nspText ++ (p.idText ++ json)))), ds.map attachment) := by
  have hChar : Char.ofNat ((p.frame + 48) % 256).toNat = '4' := by
    rw [hFrame]
    rfl
  have hCount : countText (ds.map attachment) = Nat.toDigits 10 ds.length ++ ['-'] := by
    rw [countText, if_neg (by simpa using hDs), List.length_map, Java.intToText_natCast]
  have hBinary : decide (ds.map attachment ≠ []) = true := by simpa using hDs
  rw [accept, if_neg (by simpa using hFrame), h, hChar]
  simp only [Result.ok_bind, hBinary, hCount, List.append_assoc, List.singleton_append]
  rfl

theorem Message.eq_absent {msg : Message δ} (h : msg.isAbsent = true) : msg = .absent := by
  cases msg with
  | absent => rfl
  | null | bool | int | double | string | binary | array | object => cases h

theorem hasBinary_of_accept {p : Packet δ} {v : Json.Value δ} {ds : List Text}
    (h : acceptMessage p.message [] = .ok (v, ds.map attachment)) :
    p.hasBinary = true ↔ ds ≠ [] := by
  rw [hasBinary, h]
  cases ds <;> simp

theorem transmitted_absent (lib : Library δ) {p : Packet δ} (hp : p.Sendable lib)
    (hMsg : p.message.isAbsent = true) : ∃ p' text ds, Transmitted lib p p' text ds := by
  have hAbsent := Message.eq_absent hMsg
  have hBinary : p.hasBinary = false := by rw [hasBinary, hAbsent, acceptMessage]
  have hDoc : acceptDocument lib p.message = .ok ([], []) := by rw [acceptDocument, if_pos hMsg]
  have hRange := sentType_range hp.type.1 hp.type.2 false
  have hPlain := mt (sentType_binary hp.type.2 (b := false) nofun).1 (by decide)
  obtain ⟨c, hc, hType, hComma, -⟩ := intToText_type hRange.1 hRange.2
  refine ⟨_, _, [], accept_text lib hp.frame hDoc, by simp [hBinary], rfl, ?_,
    fun h => absurd rfl h⟩
  intro _
  have hPre : ',' ∉ ['4', c] := by simp [hComma.symm]
  have hBody := parseBody_absent lib
    { new with frame := FrameType.message, type := sentType p.type false } hp.nsp hMsg hPre
  rw [hc, List.append_nil, List.singleton_append, parse_plain lib _ hType hRange hPlain, received,
    if_pos hMsg, if_pos hp.frame, hBinary, hp.frame, hAbsent]
  exact hBody

theorem transmitted_present (lib : Library δ) {p : Packet δ} (hp : p.Sendable lib)
    (hMsg : p.message.isAbsent = false) : ∃ p' text ds, Transmitted lib p p' text ds := by
  obtain ⟨hBracketed, hValid, hUnmarked⟩ := hp.message.resolve_left (by simp [hMsg])
  obtain ⟨v, ds, hRun, hExact, -, hBack⟩ := accepted lib.exact p.message hValid []
  rw [List.nil_append, List.map_nil] at hRun
  have hHas := hasBinary_of_accept hRun
  have hLen : ds.length < 2 ^ 31 := by simpa using hp.attachments v _ hRun
  have hRead := parseDocument_write lib hExact
  have hMessage : fromJson v ds = .ok p.message := by
    simpa using (hBack [] (by simpa using hLen)).2 hUnmarked
  have hDoc : acceptDocument lib p.message = .ok (lib.write v, ds.map attachment) := by
    rw [acceptDocument, if_neg (by simp [hMsg]), hRun]
    rfl
  obtain ⟨c₀, json, hJson, hc₀⟩ := write_head lib hBracketed hRun
  by_cases hDs : ds = []
  · subst hDs
    have hBinary : p.hasBinary = false := by simpa using hHas
    have hRange := sentType_range hp.type.1 hp.type.2 false
    have hPlain := mt (sentType_binary hp.type.2 (b := false) nofun).1 (by decide)
    obtain ⟨c, hc, hType, hComma, -⟩ := intToText_type hRange.1 hRange.2
    refine ⟨_, _, [], accept_text lib hp.frame hDoc, hHas, rfl, ?_, fun h => absurd rfl h⟩
    intro _
    have hPre : ',' ∉ ['4', c] := by simp [hComma.symm]
    have hBody := parseBody_present lib
      (q := { new with frame := FrameType.message, type := sentType p.type false })
      hp.nsp hMsg hp.packId.1 hp.packId.2 rfl hPre json hc₀
    rw [← hJson, putDocument, if_neg (by simp [hPlain]), hRead, hMessage] at hBody
    rw [hc, List.singleton_append, parse_plain lib _ hType hRange hPlain, received, if_pos hp.frame,
      hBinary]
    simp only [hMsg, hp.frame]
    exact hBody
  · have hBinary := hHas.2 hDs
    have hKind := hp.binary hBinary
    have hRange := sentType_range hp.type.1 hp.type.2 true
    have hSent := (sentType_binary hp.type.2 (b := true) fun _ => hKind).2 rfl
    obtain ⟨c, hc, hType, hComma, hScore⟩ := intToText_type hRange.1 hRange.2
    refine ⟨_, _, ds, accept_binary lib hp.frame hDs hDoc, hHas, rfl, fun h => absurd h hDs, ?_⟩
    intro _
    have hPre : ',' ∉ '4' :: c :: Nat.toDigits 10 ds.length ++ ['-'] := by
      have hDigits : ',' ∉ Nat.toDigits 10 ds.length := fun h =>
        absurd (Nat.isDigit_of_mem_toDigits (by decide) (by decide) h) (by decide)
      simp [hComma.symm, hDigits]
    have hBody := parseBody_present lib (q := { new with
        frame := FrameType.message, type := sentType p.type true, pendingBuffers := ds.length })
      hp.nsp hMsg hp.packId.1 hp.packId.2 rfl hPre json hc₀
    rw [← hJson, putDocument, if_pos ⟨rfl, hSent⟩] at hBody
    refine ⟨lib.write v, v, hRun, hRead, hMessage, ?_⟩
    rw [hc, List.singleton_append, parse_binary lib _ hType hRange hScore hSent (by omega), waiting,
      received, if_pos hp.frame, hBinary]
    simp only [hMsg, hp.frame]
    exact hBody

end Packet
end Sio
