import TaquinSolver.Concurrent.Interleave
import TaquinSolver.Sio.RoundTrip

/-! The packets of a connection.  The threads of a client put the payloads of their packets on one
connection, and the payloads of one packet can stand apart there.  A text that the connection
refuses is missing on it, and the byte strings of its packet are not. -/

namespace Sio

open Java (Text)
open Concurrent Packet

variable {δ : Type}

/-- A packet of one frame without a type, a message or a namespace. -/
def Packet.IsControl (p : Packet δ) : Prop :=
  ∃ frame, 0 ≤ frame ∧ frame ≤ 6 ∧ frame ≠ FrameType.message ∧ p = ofFrame frame

/-- The payloads of packets that are sent one after another, each with a mark for a binary one. -/
def encodeAll (lib : Library δ) : List (Packet δ) → Result (List (Bool × Text))
  | [] => .ok []
  | p :: ps => do
    let (_, payloads) ← encode lib p
    let rest ← encodeAll lib ps
    return payloads ++ rest

/-- What stands on a connection that refuses the texts of another kind. -/
def passing (keep : Text → Bool) (payloads : List (Bool × Text)) : List Text :=
  payloads.filterMap fun (isBinary, text) => if isBinary || keep text then some text else none

/-- The text of a packet is not refused. -/
def Packet.passes (lib : Library δ) (keep : Text → Bool) (p : Packet δ) : Bool :=
  match encode lib p with
  | .ok (_, (_, text) :: _) => keep text
  | _ => false

theorem passing_append (keep : Text → Bool) (as bs : List (Bool × Text)) :
    passing keep (as ++ bs) = passing keep as ++ passing keep bs := List.filterMap_append

theorem passing_all (payloads : List (Bool × Text)) :
    passing (fun _ => true) payloads = payloads.map Prod.snd := by
  simp [passing]

theorem passing_text (keep : Text → Bool) (text : Text) (rest : List (Bool × Text)) :
    passing keep ((false, text) :: rest) =
      if keep text then text :: passing keep rest else passing keep rest := by
  rw [passing, List.filterMap_cons]
  cases hKeep : keep text <;> simp [passing, hKeep]

/-- Byte strings are not refused. -/
theorem passing_binary (keep : Text → Bool) (ds : List Text) :
    passing keep (ds.map (true, ·)) = ds := by
  rw [passing, List.filterMap_map]
  simp

/-- The payload of a control packet is the digit of its frame. -/
theorem encode_control (lib : Library δ) {p : Packet δ} (hp : p.IsControl) :
    ∃ b, encode lib p = .ok (p, [(false, b)]) ∧
      ∀ waiting, putPayload lib waiting b = .ok (waiting, some p.received) := by
  obtain ⟨frame, hLow, hHigh, hFrame, rfl⟩ := hp
  refine ⟨[Char.ofNat ((frame + 48) % 256).toNat], ?_, ?_⟩
  · rw [encode, accept, if_pos (by exact hFrame)]
    rfl
  · intro waiting
    have hCases : frame = 0 ∨ frame = 1 ∨ frame = 2 ∨ frame = 3 ∨ frame = 5 ∨ frame = 6 := by
      simp only [FrameType.message] at hFrame
      omega
    rcases hCases with rfl | rfl | rfl | rfl | rfl | rfl <;> rfl

/-- The peer's manager decodes a packet from its payloads.  A packet without byte strings leaves
what the manager waits for. -/
theorem encode_sendable (lib : Library δ) {p : Packet δ} (hp : p.Sendable lib) :
    ∃ p' text ds, encode lib p = .ok (p', (false, text) :: (ds.map attachment).map (true, ·)) ∧
      (p.hasBinary = false → ds = [] ∧
        ∀ waiting, putPayload lib waiting text = .ok (waiting, some p.received)) ∧
      (p.hasBinary = true → ds ≠ [] ∧ ∃ json v,
        acceptMessage p.message [] = .ok (v, ds.map attachment) ∧ parseDocument lib json = v ∧
          fromJson v ds = .ok p.message ∧
        ∀ waiting, putPayload lib waiting text = .ok (some (p.waiting json ds.length), none)) := by
  obtain ⟨p', text, ds, h⟩ : ∃ p' text ds, Transmitted lib p p' text ds := by
    cases hMsg : p.message.isAbsent with
    | true => exact transmitted_absent lib hp hMsg
    | false => exact transmitted_present lib hp hMsg
  refine ⟨p', text, ds, ?_, ?_, ?_⟩
  · rw [encode, h.accept]
    rfl
  · intro hBinary
    have hDs : ds = [] := by
      by_contra hDs
      rw [h.hasBinary.2 hDs] at hBinary
      cases hBinary
    exact ⟨hDs, fun waiting => putPayload_text h.isText (h.whole hDs) waiting⟩
  · intro hBinary
    have hDs := h.hasBinary.1 hBinary
    obtain ⟨json, v, hAccept, hRead, hMessage, hParse⟩ := h.begun hDs
    exact ⟨hDs, json, v, hAccept, hRead, hMessage, fun waiting =>
      putPayload_text h.isText hParse waiting⟩

/-- What one thread's payloads leave the manager waiting for, and decode to, stays when payloads
that each hold a whole packet stand between them. -/
theorem putPayloads_interleave {lib : Library δ} {waiting waiting' : Option (Packet δ)}
    {as bs wire : List Text} {ps qs : List (Packet δ)}
    (ha : putPayloads lib waiting as = .ok (waiting', ps))
    (hb : List.Forall₂ (fun b q => ∀ waiting, putPayload lib waiting b = .ok (waiting, some q))
      bs qs)
    (h : Interleave as bs wire) :
    ∃ out, putPayloads lib waiting wire = .ok (waiting', out) ∧ Interleave ps qs out := by
  induction h generalizing waiting ps qs with
  | nil =>
    cases hb
    cases ha
    exact ⟨[], rfl, .nil⟩
  | @left a as bs wire h ih =>
    rw [putPayloads] at ha
    obtain ⟨⟨middle, decoded⟩, hFirst, ha⟩ := Result.bind_eq_ok.1 ha
    obtain ⟨⟨last, packets⟩, hRest, ha⟩ := Result.bind_eq_ok.1 ha
    cases ha
    obtain ⟨out, hOut, hInter⟩ := ih hRest hb
    refine ⟨decoded.toList ++ out, ?_, hInter.prepend decoded.toList⟩
    rw [putPayloads_cons hFirst, hOut]
    rfl
  | @right b as bs wire h ih =>
    cases hb with
    | @cons _ q _ qs hq hb =>
      obtain ⟨out, hOut, hInter⟩ := ih ha hb
      refine ⟨q :: out, ?_, hInter.right⟩
      rw [putPayloads_cons (hq waiting), hOut]
      rfl

theorem putPayloads_append {lib : Library δ} {w₁ w₂ w₃ : Option (Packet δ)} {as bs : List Text}
    {ps qs : List (Packet δ)} (ha : putPayloads lib w₁ as = .ok (w₂, ps))
    (hb : putPayloads lib w₂ bs = .ok (w₃, qs)) :
    putPayloads lib w₁ (as ++ bs) = .ok (w₃, ps ++ qs) := by
  induction as generalizing w₁ ps with
  | nil =>
    cases ha
    exact hb
  | cons a as ih =>
    rw [putPayloads] at ha
    obtain ⟨⟨middle, decoded⟩, hFirst, ha⟩ := Result.bind_eq_ok.1 ha
    obtain ⟨⟨last, packets⟩, hRest, ha⟩ := Result.bind_eq_ok.1 ha
    cases ha
    rw [List.cons_append, putPayloads_cons hFirst, ih hRest, List.append_assoc]
    rfl

theorem putPayloads_ignored (lib : Library δ) (ds : List Text) :
    putPayloads lib none (ds.map attachment) = .ok (none, []) := by
  induction ds with
  | nil => rfl
  | cons d ds ih =>
    have hFirst : putPayload lib none (attachment d) = .ok (none, none) := by rfl
    rw [List.map_cons, putPayloads_cons hFirst, ih]
    rfl

theorem encodeAll_cons {lib : Library δ} {p p' : Packet δ} {ps : List (Packet δ)}
    {payloads rest : List (Bool × Text)} (hp : encode lib p = .ok (p', payloads))
    (hps : encodeAll lib ps = .ok rest) : encodeAll lib (p :: ps) = .ok (payloads ++ rest) := by
  rw [encodeAll, hp, Result.ok_bind]
  simp only
  rw [hps]
  rfl

theorem passes_of_encode {lib : Library δ} {p p' : Packet δ} {b : Bool} {text : Text}
    {payloads : List (Bool × Text)} (h : encode lib p = .ok (p', (b, text) :: payloads))
    (keep : Text → Bool) : p.passes lib keep = keep text := by
  rw [Packet.passes, h]

/-- The packets of one thread are decoded as they were sent, in order, but for those whose texts are
refused: their byte strings are ignored. -/
theorem encodeAll_ordered (lib : Library δ) (keep : Text → Bool) {ps : List (Packet δ)}
    (hps : ∀ p ∈ ps, p.Sendable lib ∨ p.IsControl) :
    ∃ as, encodeAll lib ps = .ok as ∧
      putPayloads lib none (passing keep as) =
        .ok (none, (ps.filter (passes lib keep)).map received) := by
  induction ps with
  | nil => exact ⟨[], rfl, rfl⟩
  | cons p ps ih =>
    obtain ⟨as, hRest, hDecoded⟩ := ih fun q hq => hps q (by simp [hq])
    rcases hps p (by simp) with hp | hp
    · obtain ⟨p', text, ds, hEncode, hWhole, hBegun⟩ := encode_sendable lib hp
      refine ⟨_, encodeAll_cons hEncode hRest, ?_⟩
      rw [List.cons_append, passing_text, passing_append, passing_binary, List.filter_cons,
        passes_of_encode hEncode]
      cases keep text with
      | false => exact putPayloads_append (putPayloads_ignored lib ds) hDecoded
      | true =>
        simp only [if_true, List.map_cons]
        cases hBinary : p.hasBinary with
        | false =>
          obtain ⟨rfl, hText⟩ := hWhole hBinary
          rw [putPayloads_cons (hText none), List.map_nil, List.nil_append, hDecoded]
          rfl
        | true =>
          obtain ⟨hDs, json, v, -, hRead, hMessage, hText⟩ := hBegun hBinary
          have hAll := putPayloads_attachments lib [] hDs (p := p.waiting json ds.length) rfl rfl
            (by rw [hRead]; exact hMessage)
          rw [putPayloads_cons (hText none), putPayloads_append hAll hDecoded]
          rfl
    · obtain ⟨b, hEncode, hb⟩ := encode_control lib hp
      refine ⟨_, encodeAll_cons hEncode hRest, ?_⟩
      rw [List.singleton_append, passing_text, List.filter_cons, passes_of_encode hEncode]
      cases keep b with
      | false => exact hDecoded
      | true =>
        simp only [if_true, List.map_cons]
        rw [putPayloads_cons (hb none), hDecoded]
        rfl

/-- Each payload of packets without byte strings holds a whole packet. -/
theorem encodeAll_plain (lib : Library δ) (keep : Text → Bool) {qs : List (Packet δ)}
    (hqs : ∀ q ∈ qs, q.Sendable lib ∧ q.hasBinary = false ∨ q.IsControl) :
    ∃ bs, encodeAll lib qs = .ok bs ∧
      List.Forall₂ (fun b q => ∀ waiting, putPayload lib waiting b = .ok (waiting, some q))
        (passing keep bs) ((qs.filter (passes lib keep)).map received) := by
  induction qs with
  | nil => exact ⟨[], rfl, .nil⟩
  | cons q qs ih =>
    obtain ⟨bs, hRest, hDecoded⟩ := ih fun p hp => hqs p (by simp [hp])
    obtain ⟨q', text, hEncode, hText⟩ : ∃ q' text, encode lib q = .ok (q', [(false, text)]) ∧
        ∀ waiting, putPayload lib waiting text = .ok (waiting, some q.received) := by
      rcases hqs q (by simp) with ⟨hq, hPlain⟩ | hq
      · obtain ⟨q', text, ds, hEncode, hWhole, -⟩ := encode_sendable lib hq
        obtain ⟨rfl, hText⟩ := hWhole hPlain
        exact ⟨q', text, hEncode, hText⟩
      · obtain ⟨b, hEncode, hb⟩ := encode_control lib hq
        exact ⟨q, b, hEncode, hb⟩
    refine ⟨_, encodeAll_cons hEncode hRest, ?_⟩
    rw [List.singleton_append, passing_text, List.filter_cons, passes_of_encode hEncode]
    cases keep text with
    | false => exact hDecoded
    | true => exact .cons hText hDecoded

/-- One thread sends any packets, others only packets without byte strings: in whatever order their
payloads stand on a connection that refuses some texts, the peer decodes the packets of each thread
whose texts are not refused as they were sent and in their order, and waits for nothing at the
end. -/
theorem interleaved_passing (lib : Library δ) (keep : Text → Bool) {ps qs : List (Packet δ)}
    (hps : ∀ p ∈ ps, p.Sendable lib ∨ p.IsControl)
    (hqs : ∀ q ∈ qs, q.Sendable lib ∧ q.hasBinary = false ∨ q.IsControl)
    {as bs : List (Bool × Text)} (has : encodeAll lib ps = .ok as)
    (hbs : encodeAll lib qs = .ok bs) {wire : List Text}
    (hWire : Interleave (passing keep as) (passing keep bs) wire) :
    ∃ out, putPayloads lib none wire = .ok (none, out) ∧
      Interleave ((ps.filter (passes lib keep)).map received)
        ((qs.filter (passes lib keep)).map received) out := by
  obtain ⟨as', hAs, hOrdered⟩ := encodeAll_ordered lib keep hps
  obtain ⟨bs', hBs, hPlain⟩ := encodeAll_plain lib keep hqs
  cases hAs.symm.trans has
  cases hBs.symm.trans hbs
  exact putPayloads_interleave hOrdered hPlain hWire

theorem passes_all (lib : Library δ) {p : Packet δ} (hp : p.Sendable lib ∨ p.IsControl) :
    p.passes lib (fun _ => true) = true := by
  rcases hp with hp | hp
  · obtain ⟨p', text, ds, hEncode, -⟩ := encode_sendable lib hp
    exact passes_of_encode hEncode _
  · obtain ⟨b, hEncode, -⟩ := encode_control lib hp
    exact passes_of_encode hEncode _

/-- One thread sends packets that can be read back, others only such packets without byte strings:
in whatever order their payloads stand on the connection, the peer decodes the packets of each
thread, as `received` has them and in their order, and waits for nothing at the end. -/
theorem interleaved_decoded (lib : Library δ) (ps qs : List (Packet δ))
    (hps : ∀ p ∈ ps, p.Sendable lib ∨ p.IsControl)
    (hqs : ∀ q ∈ qs, q.Sendable lib ∧ q.hasBinary = false ∨ q.IsControl) :
    ∃ as bs, encodeAll lib ps = .ok as ∧ encodeAll lib qs = .ok bs ∧
      ∀ wire, Interleave as bs wire →
        ∃ out, putPayloads lib none (wire.map Prod.snd) = .ok (none, out) ∧
          Interleave (ps.map received) (qs.map received) out := by
  obtain ⟨as, hAs, -⟩ := encodeAll_ordered lib (fun _ => true) hps
  obtain ⟨bs, hBs, -⟩ := encodeAll_plain lib (fun _ => true) hqs
  refine ⟨as, bs, hAs, hBs, fun wire hWire => ?_⟩
  have hPlain : ∀ q ∈ qs, q.Sendable lib ∨ q.IsControl := fun q hq => (hqs q hq).imp And.left id
  have hKept : Interleave (passing (fun _ => true) as) (passing (fun _ => true) bs)
      (passing (fun _ => true) wire) := hWire.filterMap _
  have hPassing := interleaved_passing lib _ hps hqs hAs hBs hKept
  rw [List.filter_eq_self.2 fun p hp => passes_all lib (hps p hp),
    List.filter_eq_self.2 fun q hq => passes_all lib (hPlain q hq)] at hPassing
  rw [← passing_all]
  exact hPassing

theorem sendable_ofMessage {lib : Library δ} {nsp : Text} {l : List (Message δ)} {id : ℤ}
    (isAck : Bool) (hNsp : IsNamespace nsp) (hLow : -1 ≤ id) (hHigh : id < 2 ^ 31)
    (hValid : ElementsValid lib.exact l) (hUnmarked : ElementsUnmarked l)
    (hLen : ∀ v buffers, acceptMessage (.array l) [] = .ok (v, buffers) → buffers.length < 2 ^ 31) :
    (ofMessage nsp (.array l) id isAck).Sendable lib where
  frame := rfl
  type := by
    cases isAck with
    | false => exact ⟨by simp [ofMessage]; decide, by simp [ofMessage]; decide⟩
    | true => exact ⟨by simp [ofMessage]; decide, by simp [ofMessage]; decide⟩
  nsp := hNsp
  packId := ⟨hLow, hHigh⟩
  message := .inr ⟨trivial, hValid, hUnmarked⟩
  attachments := hLen
  binary _ := by
    cases isAck with
    | false => exact .inl rfl
    | true => exact .inr rfl

/-- An event with a byte string. -/
def upload (data : Text) : Packet Empty :=
  ofMessage ['/'] (.array [.string ['u'], .binary data]) (-1) false

/-- An event of a namespace, to be acknowledged. -/
def request : Packet Empty := ofMessage ['/', 'n'] (.array [.string ['r'], .int 5]) 12 false

theorem sendable_upload (data : Text) : (upload data).Sendable compactLibrary :=
  sendable_ofMessage false (.inr ⟨[], rfl, by simp⟩) (by decide) (by decide)
    ⟨trivial, trivial, trivial⟩ ⟨trivial, trivial, trivial⟩ (by
      intro v buffers h
      cases h
      exact (by decide : 1 < 2 ^ 31))

theorem sendable_request : request.Sendable compactLibrary :=
  sendable_ofMessage false (.inr ⟨['n'], rfl, by decide⟩) (by decide) (by decide)
    ⟨trivial, trivial, trivial⟩ ⟨trivial, trivial, trivial⟩ (by
      intro v buffers h
      cases h
      decide)

theorem interleaved_decoded_upload :
    ∃ as bs, encodeAll compactLibrary [upload ['x']] = .ok as ∧
      encodeAll compactLibrary [request, ofFrame FrameType.ping] = .ok bs ∧
      ∀ wire, Interleave as bs wire →
        ∃ out, putPayloads compactLibrary none (wire.map Prod.snd) = .ok (none, out) ∧
          Interleave [(upload ['x']).received]
            [(request).received, (ofFrame FrameType.ping).received] out :=
  interleaved_decoded compactLibrary [upload ['x']] [request, ofFrame FrameType.ping]
    (by
      intro p hp
      rw [List.mem_singleton] at hp
      exact .inl (hp ▸ sendable_upload ['x']))
    (by
      intro q hq
      rcases List.mem_cons.1 hq with rfl | hq
      · exact .inl ⟨sendable_request, rfl⟩
      · rw [List.mem_singleton] at hq
        exact .inr ⟨FrameType.ping, by decide, by decide, by decide, hq⟩)

/-! ### Two threads with byte strings -/

theorem fromPlaceholder_length (m : List (Text × Json.Value δ)) {ds ds' : List Text}
    (hLen : ds'.length = ds.length) {msg : Message δ} (h : fromPlaceholder m ds = .ok msg) :
    ∃ msg', fromPlaceholder m ds' = .ok msg' := by
  unfold fromPlaceholder at h ⊢
  rw [hLen]
  cases hNum : m.lookup num with
  | none =>
    rw [hNum] at h
    cases h
  | some v =>
    rw [hNum] at h
    cases v with
    | int n =>
      simp only at h ⊢
      split at h
      · rw [if_pos (by assumption)]
        split <;> exact ⟨_, rfl⟩
      · cases h
    | null | bool | double | string | array | object => cases h

mutual

/-- Whether a document can be read depends on the number of byte strings alone. -/
theorem fromJson_length (v : Json.Value δ) {ds ds' : List Text} (hLen : ds'.length = ds.length)
    {msg : Message δ} (h : fromJson v ds = .ok msg) : ∃ msg', fromJson v ds' = .ok msg' := by
  match v with
  | .null | .bool _ | .double _ | .string _ => exact ⟨_, rfl⟩
  | .int i =>
    rw [fromJson]
    split <;> exact ⟨_, rfl⟩
  | .array l =>
    rw [fromJson] at h
    obtain ⟨l', hl, -⟩ := Result.bind_eq_ok.1 h
    obtain ⟨l'', hl⟩ := fromElements_length l hLen hl
    exact ⟨.array l'', by rw [fromJson, hl]; rfl⟩
  | .object m =>
    rw [fromJson] at h
    split at h
    · rename_i hTrue
      obtain ⟨msg', hm⟩ := fromPlaceholder_length m hLen h
      exact ⟨msg', by rw [fromJson, hTrue]; exact hm⟩
    · rename_i hFalse
      obtain ⟨members, hm, -⟩ := Result.bind_eq_ok.1 h
      obtain ⟨members', hm⟩ := fromMembers_length m hLen hm
      exact ⟨_, by rw [fromJson, hFalse, hm]; rfl⟩
    · rename_i hNone
      obtain ⟨members, hm, -⟩ := Result.bind_eq_ok.1 h
      obtain ⟨members', hm⟩ := fromMembers_length m hLen hm
      exact ⟨_, by rw [fromJson, hNone, hm]; rfl⟩
    · cases h

theorem fromElements_length (l : List (Json.Value δ)) {ds ds' : List Text}
    (hLen : ds'.length = ds.length) {msgs : List (Message δ)} (h : fromElements l ds = .ok msgs) :
    ∃ msgs', fromElements l ds' = .ok msgs' := by
  match l with
  | [] => exact ⟨[], rfl⟩
  | v :: l =>
    rw [fromElements] at h
    obtain ⟨msg, hv, h⟩ := Result.bind_eq_ok.1 h
    obtain ⟨msgs, hl, -⟩ := Result.bind_eq_ok.1 h
    obtain ⟨msg', hv⟩ := fromJson_length v hLen hv
    obtain ⟨msgs', hl⟩ := fromElements_length l hLen hl
    exact ⟨msg' :: msgs', by rw [fromElements, hv, Result.ok_bind, hl]; rfl⟩

theorem fromMembers_length (m : List (Text × Json.Value δ)) {ds ds' : List Text}
    (hLen : ds'.length = ds.length) {members : List (Text × Message δ)}
    (h : fromMembers m ds = .ok members) : ∃ members', fromMembers m ds' = .ok members' := by
  match m with
  | [] => exact ⟨[], rfl⟩
  | (k, v) :: m =>
    rw [fromMembers] at h
    obtain ⟨msg, hv, h⟩ := Result.bind_eq_ok.1 h
    obtain ⟨members, hm, -⟩ := Result.bind_eq_ok.1 h
    obtain ⟨msg', hv⟩ := fromJson_length v hLen hv
    obtain ⟨members', hm⟩ := fromMembers_length m hLen hm
    exact ⟨(k, msg') :: members', by rw [fromMembers, hv, Result.ok_bind, hm]; rfl⟩

end

/-- Two threads that each send a packet with byte strings can lose one: when both texts come before
the byte strings, the peer decodes only the second packet, and its document is filled with the byte
strings that come first, those of the first packet. -/
theorem concurrent_attachments_lost (lib : Library δ) (p q : Packet δ) (hp : p.Sendable lib)
    (hq : q.Sendable lib) (hpBinary : p.hasBinary = true) (hqBinary : q.hasBinary = true) :
    ∃ as bs wire v v' msg, ∃ ds ds' : List Text,
      encodeAll lib [p] = .ok as ∧ encodeAll lib [q] = .ok bs ∧
      acceptMessage p.message [] = .ok (v, ds.map attachment) ∧
      acceptMessage q.message [] = .ok (v', ds'.map attachment) ∧ Interleave as bs wire ∧
      fromJson v' ((ds ++ ds').take ds'.length) = .ok msg ∧
      putPayloads lib none (wire.map Prod.snd) =
        .ok (none, [{ q.received with message := msg }]) := by
  obtain ⟨p', text, ds, hEncode, -, hBegun⟩ := encode_sendable lib hp
  obtain ⟨q', text', ds', hEncode', -, hBegun'⟩ := encode_sendable lib hq
  obtain ⟨hDs, json, v, hAccept, -, -, hText⟩ := hBegun hpBinary
  obtain ⟨hDs', json', v', hAccept', hRead', hMessage', hText'⟩ := hBegun' hqBinary
  -- the second text takes as many byte strings as it announces, and the others are ignored
  have hTake : ((ds ++ ds').take ds'.length).length = ds'.length := by simp
  obtain ⟨msg, hMsg⟩ := fromJson_length v' hTake hMessage'
  have hLost := putPayloads_attachments lib [] (p := q.waiting json' ds'.length)
    (by
      rw [← List.length_pos_iff, hTake]
      exact List.length_pos_iff.2 hDs') hTake.symm rfl (by rw [hRead']; exact hMsg)
  have hRest := putPayloads_ignored lib ((ds ++ ds').drop ds'.length)
  have hWire := putPayloads_append hLost hRest
  rw [← List.map_append, List.take_append_drop, List.map_append, List.append_nil] at hWire
  refine ⟨_, _, (false, text) :: (false, text') :: ((ds.map attachment).map (true, ·) ++
    (ds'.map attachment).map (true, ·)), v, v', msg, ds, ds', encodeAll_cons hEncode rfl,
    encodeAll_cons hEncode' rfl, hAccept, hAccept', ?_, hMsg, ?_⟩
  · rw [List.append_nil, List.append_nil]
    refine .left (.right ?_)
    simpa using (Interleave.nil_left ((ds'.map attachment).map (true, ·))).prepend
      ((ds.map attachment).map (true, ·))
  · rw [List.map_cons, List.map_cons, putPayloads_cons (hText none), putPayloads_cons (hText' _)]
    simp only [List.map_append, List.map_map, Function.comp_def]
    rw [hWire]
    rfl

theorem concurrent_attachments_lost_upload :
    ∃ as bs wire v v' msg, ∃ ds ds' : List Text,
      encodeAll compactLibrary [upload ['x']] = .ok as ∧
      encodeAll compactLibrary [upload ['y']] = .ok bs ∧
      acceptMessage (upload ['x']).message [] = .ok (v, ds.map attachment) ∧
      acceptMessage (upload ['y']).message [] = .ok (v', ds'.map attachment) ∧
      Interleave as bs wire ∧ fromJson v' ((ds ++ ds').take ds'.length) = .ok msg ∧
      putPayloads compactLibrary none (wire.map Prod.snd) =
        .ok (none, [{ (upload ['y']).received with message := msg }]) :=
  concurrent_attachments_lost compactLibrary (upload ['x']) (upload ['y']) (sendable_upload _)
    (sendable_upload _) rfl rfl

end Sio
