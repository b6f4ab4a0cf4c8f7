import Mathlib.Algebra.Order.Group.Multiset
import TaquinSolver.Concurrent.Interleave
import TaquinSolver.Sio.Socket

/-! What becomes of the packets, the acknowledgements and the events of a socket in a run, whatever
the program and the peer do. -/

namespace Sio

open Java (Text)
open Concurrent

variable {δ A L : Type}

namespace Call

/-- The packets handed to `send_packet`. -/
def handed : List (Call δ A L) → List (Packet δ) :=
  List.filterMap fun
    | .sendPacket p => some p
    | _ => none

/-- The packets that leave through the queue. -/
def sent : List (Call δ A L) → List (Packet δ) :=
  List.filterMap fun
    | .send p => some p
    | _ => none

/-- The packets thrown away with the queue. -/
def discarded : List (Call δ A L) → List (Packet δ) :=
  List.flatMap fun
    | .discard ps => ps
    | _ => []

theorem handed_append (cs cs' : List (Call δ A L)) : handed (cs ++ cs') = handed cs ++ handed cs' :=
  List.filterMap_append

theorem sent_append (cs cs' : List (Call δ A L)) : sent (cs ++ cs') = sent cs ++ sent cs' :=
  List.filterMap_append

theorem discarded_append (cs cs' : List (Call δ A L)) :
    discarded (cs ++ cs') = discarded cs ++ discarded cs' :=
  List.flatMap_append

theorem handed_sends (ps : List (Packet δ)) : handed (ps.map (send (A := A) (L := L))) = [] := by
  induction ps with
  | nil => rfl
  | cons p ps ih => exact ih

theorem sent_sends (ps : List (Packet δ)) : sent (ps.map (send (A := A) (L := L))) = ps := by
  induction ps with
  | nil => rfl
  | cons p ps ih => exact congrArg (p :: ·) ih

theorem discarded_sends (ps : List (Packet δ)) :
    discarded (ps.map (send (A := A) (L := L))) = [] := by
  induction ps with
  | nil => rfl
  | cons p ps ih => exact ih

/-- A call that is neither about the packets of the queue nor about an acknowledgement. -/
def IsQuiet : Call δ A L → Prop
  | .sendConnect _ | .listener _ _ | .errorListener _ _ | .socketOpened _ | .socketClosed _
  | .removeSocket _ => True
  | .sendPacket _ | .send _ | .discard _ | .registerAck _ _ | .ack _ _ _ => False

theorem handed_quiet {cs : List (Call δ A L)} (h : ∀ c ∈ cs, c.IsQuiet) :
    handed cs = [] ∧ sent cs = [] ∧ discarded cs = [] := by
  induction cs with
  | nil => exact ⟨rfl, rfl, rfl⟩
  | cons c cs ih =>
    have hc := h c (by simp)
    cases c with
    | sendConnect | listener | errorListener | socketOpened | socketClosed | removeSocket =>
      exact ih fun d hd => h d (by simp [hd])
    | sendPacket | send | discard | registerAck | ack => cases hc

end Call

/-! ### What a socket can do -/

/-- The moves that every step is made of. -/
inductive Moves : Socket δ A L → List (Call δ A L) → Socket δ A L → Prop
  | sendPacket (s : Socket δ A L) (p : Packet δ) : Moves s (s.sendPacket p).2 (s.sendPacket p).1
  | drain (s : Socket δ A L) : Moves s (s.packetQueue.map .send) { s with packetQueue := [] }
  | discard (s : Socket δ A L) (client : Bool) :
      Moves s [.discard s.packetQueue]
        { s with client := client, connected := false, packetQueue := [] }
  | registerAck (s : Socket δ A L) (a : A) :
      Moves s [.registerAck s.globalEventId a] { s with
        globalEventId := (s.globalEventId + 1) % 2 ^ 32, acks := mapSet s.globalEventId a s.acks }
  | ack (s : Socket δ A L) {id : ℕ} {a : A} (h : s.acks.lookup id = some a)
      (messages : List (Message δ)) :
      Moves s [.ack id a messages] { s with acks := s.acks.filter (·.1 ≠ id) }
  | quiet {s s' : Socket δ A L} {calls : List (Call δ A L)} (hCalls : ∀ c ∈ calls, c.IsQuiet)
      (hAcks : s'.acks = s.acks) (hQueue : s'.packetQueue = s.packetQueue) : Moves s calls s'
  | trans {s₁ s₂ s₃ : Socket δ A L} {c₁ c₂ : List (Call δ A L)} (h₁ : Moves s₁ c₁ s₂)
      (h₂ : Moves s₂ c₂ s₃) : Moves s₁ (c₁ ++ c₂) s₃

namespace Moves

theorem none {s s' : Socket δ A L} (hAcks : s'.acks = s.acks)
    (hQueue : s'.packetQueue = s.packetQueue) : Moves s [] s' :=
  .quiet (List.forall_mem_nil _) hAcks hQueue

theorem cons {s s' : Socket δ A L} {calls : List (Call δ A L)} {c : Call δ A L} (hc : c.IsQuiet)
    (h : Moves s calls s') : Moves s (c :: calls) s' :=
  (Moves.quiet (by simpa using hc) rfl rfl : Moves s [c] s).trans h

end Moves

namespace Socket

theorem request_moves (s : Socket δ A L) (r : Request δ A L) :
    Moves s (s.request r).2 (s.request r).1 := by
  cases r with
  | emit name msglist ack =>
    rw [request, emit]
    split
    · cases ack with
      | some ack => exact (Moves.registerAck s ack).trans (.sendPacket _ _)
      | none => exact .sendPacket s _
    · exact .none rfl rfl
  | close =>
    rw [request, close]
    split
    · exact .sendPacket s _
    · exact .none rfl rfl
  | on | off | offAll | onError | offError => exact .none rfl rfl

theorem requests_moves (s : Socket δ A L) (rs : List (Request δ A L)) :
    Moves s (s.requests rs).2 (s.requests rs).1 := by
  induction rs generalizing s with
  | nil => exact .none rfl rfl
  | cons r rs ih => exact (s.request_moves r).trans (ih _)

theorem onConnected_moves (s : Socket δ A L) (does : List (Request δ A L)) :
    Moves s (s.onConnected does).2 (s.onConnected does).1 := by
  unfold onConnected
  split
  · exact .none rfl rfl
  · have hOpen : Moves s [.socketOpened s.nsp] { s with connected := true } :=
      .quiet (by simp [Call.IsQuiet]) rfl rfl
    exact hOpen.trans ((requests_moves _ does).trans (.drain _))

theorem onClose_moves (s : Socket δ A L) : Moves s s.onClose.2 s.onClose.1 := by
  unfold onClose
  split
  · exact (Moves.discard s false).trans (.quiet (by simp [Call.IsQuiet]) rfl rfl)
  · exact .none rfl rfl

theorem onDisconnect_moves (s : Socket δ A L) : Moves s s.onDisconnect.2 s.onDisconnect.1 := by
  unfold onDisconnect
  split
  · exact .discard s s.client
  · exact .none rfl rfl

theorem onSocketioEvent_moves (s : Socket δ A L) (msgId : ℤ) (name : Text)
    (messages : List (Message δ)) (does : List (Request δ A L)) (ackMessage : List (Message δ)) :
    Moves s (s.onSocketioEvent msgId name messages does ackMessage).2
      (s.onSocketioEvent msgId name messages does ackMessage).1 := by
  unfold onSocketioEvent
  simp only
  split
  · refine .cons trivial ((s.requests_moves does).trans ?_)
    split
    · exact .sendPacket _ _
    · exact .none rfl rfl
  · split
    · exact .sendPacket s _
    · exact .none rfl rfl

theorem onSocketioAck_moves (s : Socket δ A L) (msgId : ℤ) (messages : List (Message δ))
    (does : List (Request δ A L)) :
    Moves s (s.onSocketioAck msgId messages does).2 (s.onSocketioAck msgId messages does).1 := by
  unfold onSocketioAck
  simp only
  split
  · rename_i ack hLookup
    exact (Moves.ack s hLookup messages).trans (requests_moves _ does)
  · exact .none rfl rfl

theorem onSocketioError_moves (s : Socket δ A L) (message : Message δ)
    (does : List (Request δ A L)) :
    Moves s (s.onSocketioError message does).2 (s.onSocketioError message does).1 := by
  unfold onSocketioError
  split
  · exact .cons trivial (s.requests_moves does)
  · exact .none rfl rfl

/-- The packet is an event of this socket. -/
def HandlesEvent (s : Socket δ A L) (p : Packet δ) (name : Text) (messages : List (Message δ)) :
    Prop :=
  s.client = true ∧ p.nsp = s.nsp ∧
    (p.type = PacketType.event ∨ p.type = PacketType.binaryEvent) ∧
      eventOf p.message = .ok (some (name, messages))

theorem not_handlesEvent {s : Socket δ A L} {p : Packet δ} (hEvent : p.type ≠ PacketType.event)
    (hBinary : p.type ≠ PacketType.binaryEvent) (name : Text) (messages : List (Message δ)) :
    ¬s.HandlesEvent p name messages :=
  fun h => h.2.2.1.elim hEvent hBinary

/-- What a packet leads to. -/
theorem onMessagePacket_cases {s : Socket δ A L} {p : Packet δ} {does : List (Request δ A L)}
    {ackMessage : List (Message δ)} {r : Socket δ A L × List (Call δ A L)}
    (h : s.onMessagePacket p does ackMessage = .ok r) :
    (∃ name messages, s.HandlesEvent p name messages ∧
      r = s.onSocketioEvent p.packId name messages does ackMessage) ∨
    (∀ name messages, ¬s.HandlesEvent p name messages) ∧
      (r = (s, []) ∨ s.client = true ∧ r = s.onConnected does ∨ r = s.onClose ∨
        (∃ messages, r = s.onSocketioAck p.packId messages does) ∨
        r = s.onSocketioError p.message does) := by
  unfold onMessagePacket at h
  split at h
  · rename_i hOther
    cases h
    exact .inr ⟨fun _ _ hEvent => hOther.elim (by simp [hEvent.1]) fun hNsp => hNsp hEvent.2.1,
      .inl rfl⟩
  rename_i hSame
  rw [not_or, Bool.not_eq_false, not_not] at hSame
  split at h
  · cases h
  split at h
  · rename_i hType
    cases h
    exact .inr ⟨not_handlesEvent (by rw [hType]; decide) (by rw [hType]; decide),
      .inr (.inl ⟨hSame.1, rfl⟩)⟩
  split at h
  · rename_i hType
    cases h
    exact .inr ⟨not_handlesEvent (by rw [hType]; decide) (by rw [hType]; decide),
      .inr (.inr (.inl rfl))⟩
  split at h
  · rename_i hType
    obtain ⟨event, hEvent, h⟩ := Result.bind_eq_ok.1 h
    cases event with
    | some event =>
      cases h
      exact .inl ⟨event.1, event.2, ⟨hSame.1, hSame.2, hType, hEvent⟩, rfl⟩
    | none =>
      cases h
      refine .inr ⟨fun name messages hNo => ?_, .inl rfl⟩
      rw [hNo.2.2.2] at hEvent
      cases hEvent
  rename_i hType
  rw [not_or] at hType
  have hNo := not_handlesEvent (s := s) hType.1 hType.2
  split at h
  · split at h <;> cases h
    · exact .inr ⟨hNo, .inr (.inr (.inr (.inl ⟨_, rfl⟩)))⟩
    · exact .inr ⟨hNo, .inr (.inr (.inr (.inl ⟨_, rfl⟩)))⟩
  split at h
  · cases h
    exact .inr ⟨hNo, .inr (.inr (.inr (.inr rfl)))⟩
  · cases h
    exact .inr ⟨hNo, .inl rfl⟩

theorem onMessagePacket_moves {s : Socket δ A L} {p : Packet δ} {does : List (Request δ A L)}
    {ackMessage : List (Message δ)} {r : Socket δ A L × List (Call δ A L)}
    (h : s.onMessagePacket p does ackMessage = .ok r) : Moves s r.2 r.1 := by
  rcases onMessagePacket_cases h with
    ⟨name, messages, -, rfl⟩ | ⟨-, rfl | ⟨-, rfl⟩ | rfl | ⟨messages, rfl⟩ | rfl⟩
  · exact s.onSocketioEvent_moves _ _ _ _ _
  · exact .none rfl rfl
  · exact s.onConnected_moves does
  · exact s.onClose_moves
  · exact s.onSocketioAck_moves _ _ _
  · exact s.onSocketioError_moves _ _

theorem step_moves {s : Socket δ A L} {i : Input δ A L} {r : Socket δ A L × List (Call δ A L)}
    (h : s.step i = .ok r) : Moves s r.2 r.1 := by
  cases i with
  | request =>
    cases h
    exact s.request_moves _
  | otherEmit =>
    cases h
    exact .none rfl rfl
  | opened =>
    cases h
    unfold sendConnect
    split
    · exact .quiet (by simp [Call.IsQuiet]) rfl rfl
    · exact .none rfl rfl
  | disconnected =>
    cases h
    exact s.onDisconnect_moves
  | closed =>
    cases h
    exact s.onClose_moves
  | timeoutConnection ec =>
    cases h
    split
    · exact s.onClose_moves
    · exact .none rfl rfl
  | packet p does ackMessage => exact onMessagePacket_moves h

theorem run_moves {s s' : Socket δ A L} {is : List (Input δ A L)} {calls : List (Call δ A L)}
    (h : s.run is = .ok (s', calls)) : Moves s calls s' := by
  induction is generalizing s calls with
  | nil =>
    cases h
    exact .none rfl rfl
  | cons i is ih =>
    rw [run] at h
    obtain ⟨⟨s₁, c₁⟩, hStep, h⟩ := Result.bind_eq_ok.1 h
    obtain ⟨⟨s₂, c₂⟩, hRun, h⟩ := Result.bind_eq_ok.1 h
    cases h
    exact (step_moves hStep).trans (ih hRun)

end Socket

/-! ### Packets -/

/-- The packets that waited and those handed over are sent in their order, or thrown away, or they
still wait. -/
def Flow (s : Socket δ A L) (calls : List (Call δ A L)) (s' : Socket δ A L) : Prop :=
  ∃ done, s.packetQueue ++ Call.handed calls = done ++ s'.packetQueue ∧
    Interleave (Call.sent calls) (Call.discarded calls) done

namespace Flow

theorem refl {s s' : Socket δ A L} (hQueue : s'.packetQueue = s.packetQueue)
    {calls : List (Call δ A L)} (hHanded : Call.handed calls = []) (hSent : Call.sent calls = [])
    (hDiscarded : Call.discarded calls = []) : Flow s calls s' := by
  refine ⟨[], by rw [hHanded, hQueue, List.append_nil, List.nil_append], ?_⟩
  rw [hSent, hDiscarded]
  exact .nil

theorem trans {s₁ s₂ s₃ : Socket δ A L} {c₁ c₂ : List (Call δ A L)} (h₁ : Flow s₁ c₁ s₂)
    (h₂ : Flow s₂ c₂ s₃) : Flow s₁ (c₁ ++ c₂) s₃ := by
  obtain ⟨d₁, hd₁, hi₁⟩ := h₁
  obtain ⟨d₂, hd₂, hi₂⟩ := h₂
  refine ⟨d₁ ++ d₂, ?_, ?_⟩
  · rw [Call.handed_append, ← List.append_assoc, hd₁, List.append_assoc, hd₂, List.append_assoc]
  · rw [Call.sent_append, Call.discarded_append]
    exact hi₁.append hi₂

/-- The queue is sent whole. -/
theorem drain (s : Socket δ A L) {s' : Socket δ A L} (hQueue : s'.packetQueue = []) :
    Flow s (s.packetQueue.map .send) s' := by
  refine ⟨s.packetQueue, by rw [Call.handed_sends, hQueue], ?_⟩
  rw [Call.sent_sends, Call.discarded_sends]
  exact .nil_right _

/-- The queue is thrown away. -/
theorem discard (s : Socket δ A L) {s' : Socket δ A L} (hQueue : s'.packetQueue = [])
    {calls : List (Call δ A L)} (hHanded : Call.handed calls = []) (hSent : Call.sent calls = [])
    (hDiscarded : Call.discarded calls = s.packetQueue) : Flow s calls s' := by
  refine ⟨s.packetQueue, by rw [hHanded, hQueue], ?_⟩
  rw [hSent, hDiscarded]
  exact .nil_left _

/-- A call that is about no packet. -/
theorem cons {s s' : Socket δ A L} {calls : List (Call δ A L)} (h : Flow s calls s')
    {c : Call δ A L} (hHanded : Call.handed [c] = []) (hSent : Call.sent [c] = [])
    (hDiscarded : Call.discarded [c] = []) : Flow s (c :: calls) s' :=
  (refl rfl hHanded hSent hDiscarded : Flow s [c] s).trans h

end Flow

/-- Nothing waits in a socket that is connected, or that has lost its client. -/
structure Settled (s : Socket δ A L) : Prop where
  connected : s.connected = true → s.packetQueue = []
  closed : s.client = false → s.connected = false ∧ s.packetQueue = []

namespace Socket

theorem sendPacket_flow (s : Socket δ A L) (p : Packet δ) :
    Flow s (s.sendPacket p).2 (s.sendPacket p).1 := by
  unfold sendPacket
  split
  · split
    · have hHanded : Call.handed (.sendPacket p ::
          (s.packetQueue ++ [p]).map (Call.send (A := A) (L := L))) = [p] :=
        congrArg (p :: ·) (Call.handed_sends _)
      have hSent : Call.sent (.sendPacket p ::
          (s.packetQueue ++ [p]).map (Call.send (A := A) (L := L))) = s.packetQueue ++ [p] :=
        Call.sent_sends _
      have hDiscarded : Call.discarded (.sendPacket p ::
          (s.packetQueue ++ [p]).map (Call.send (A := A) (L := L))) = [] :=
        Call.discarded_sends _
      refine ⟨s.packetQueue ++ [p], ?_, ?_⟩
      · simp only [hHanded, List.append_nil]
      · simp only [hSent, hDiscarded]
        exact .nil_right _
    · exact ⟨[], rfl, .nil⟩
  · exact .refl rfl rfl rfl rfl

end Socket

theorem Moves.flow {s s' : Socket δ A L} {calls : List (Call δ A L)} (h : Moves s calls s') :
    Flow s calls s' := by
  induction h with
  | sendPacket s p => exact s.sendPacket_flow p
  | drain s => exact .drain s rfl
  | discard s client => exact .discard s rfl rfl rfl (List.append_nil _)
  | registerAck | ack => exact .refl rfl rfl rfl rfl
  | quiet hCalls _ hQueue =>
    obtain ⟨hHanded, hSent, hDiscarded⟩ := Call.handed_quiet hCalls
    exact .refl hQueue hHanded hSent hDiscarded
  | trans _ _ ih₁ ih₂ => exact ih₁.trans ih₂

namespace Socket

theorem sendPacket_client (s : Socket δ A L) (p : Packet δ) :
    (s.sendPacket p).1.client = s.client ∧ (s.sendPacket p).1.nsp = s.nsp := by
  unfold sendPacket
  split
  · split <;> exact ⟨rfl, rfl⟩
  · exact ⟨rfl, rfl⟩

theorem sendPacket_settled {s : Socket δ A L} (h : Settled s) (p : Packet δ) :
    Settled (s.sendPacket p).1 := by
  unfold sendPacket
  split
  · rename_i hClient
    have hOpen : s.client = false → False := fun hNo => by rw [hClient] at hNo; cases hNo
    split
    · exact ⟨fun _ => rfl, fun hNo => (hOpen hNo).elim⟩
    · rename_i hConnected
      exact ⟨fun hYes => absurd hYes hConnected, fun hNo => (hOpen hNo).elim⟩
  · exact h

theorem event_ne_ack :
    PacketType.event + PacketType.undetermined ≠ PacketType.ack + PacketType.undetermined := by
  decide

theorem disconnect_ne_ack :
    PacketType.disconnect ≠ PacketType.ack + PacketType.undetermined := by
  decide

/-- A request is at most one packet, after changes that leave the queue and the client alone. -/
theorem request_cases (s : Socket δ A L) (r : Request δ A L) :
    ∃ s₁ : Socket δ A L, (s₁.client = s.client ∧ s₁.connected = s.connected ∧ s₁.nsp = s.nsp ∧
        s₁.packetQueue = s.packetQueue) ∧
      ((s.request r).1 = s₁ ∧ (s.request r).2 = [] ∨
        ∃ p calls, p.type ≠ PacketType.ack + PacketType.undetermined ∧ Call.handed calls = [] ∧
          (s.request r).1 = (s₁.sendPacket p).1 ∧
          (s.request r).2 = calls ++ (s₁.sendPacket p).2) := by
  cases r with
  | emit name msglist ack =>
    rw [request, emit]
    split
    · cases ack with
      | some ack =>
        exact ⟨{ s with
          globalEventId := (s.globalEventId + 1) % 2 ^ 32
          acks := mapSet s.globalEventId ack s.acks }, ⟨rfl, rfl, rfl, rfl⟩,
          .inr ⟨_, [.registerAck s.globalEventId ack], event_ne_ack, rfl, rfl, rfl⟩⟩
      | none => exact ⟨s, ⟨rfl, rfl, rfl, rfl⟩, .inr ⟨_, [], event_ne_ack, rfl, rfl, rfl⟩⟩
    · exact ⟨s, ⟨rfl, rfl, rfl, rfl⟩, .inl ⟨rfl, rfl⟩⟩
  | close =>
    rw [request, close]
    split
    · exact ⟨s, ⟨rfl, rfl, rfl, rfl⟩, .inr ⟨_, [], disconnect_ne_ack, rfl, rfl, rfl⟩⟩
    · exact ⟨s, ⟨rfl, rfl, rfl, rfl⟩, .inl ⟨rfl, rfl⟩⟩
  | on | off | offAll | onError | offError =>
    refine ⟨_, ?_, .inl ⟨rfl, rfl⟩⟩
    exact ⟨rfl, rfl, rfl, rfl⟩

theorem requests_client (s : Socket δ A L) (rs : List (Request δ A L)) :
    (s.requests rs).1.client = s.client ∧ (s.requests rs).1.nsp = s.nsp := by
  induction rs generalizing s with
  | nil => exact ⟨rfl, rfl⟩
  | cons r rs ih =>
    obtain ⟨s₁, ⟨hClient, -, hNsp, -⟩, hCases⟩ := s.request_cases r
    have hOne : (s.request r).1.client = s.client ∧ (s.request r).1.nsp = s.nsp := by
      rcases hCases with ⟨h, -⟩ | ⟨p, calls, -, -, h, -⟩
      · rw [h]
        exact ⟨hClient, hNsp⟩
      · rw [h, (s₁.sendPacket_client p).1, (s₁.sendPacket_client p).2]
        exact ⟨hClient, hNsp⟩
    exact ⟨(ih _).1.trans hOne.1, (ih _).2.trans hOne.2⟩

theorem requests_settled {s : Socket δ A L} (h : Settled s) (rs : List (Request δ A L)) :
    Settled (s.requests rs).1 := by
  induction rs generalizing s with
  | nil => exact h
  | cons r rs ih =>
    obtain ⟨s₁, ⟨hClient, hConnected, -, hQueue⟩, hCases⟩ := s.request_cases r
    have h₁ : Settled s₁ := by
      constructor
      · rw [hConnected, hQueue]
        exact h.connected
      · rw [hClient, hConnected, hQueue]
        exact h.closed
    apply ih
    rcases hCases with ⟨hEq, -⟩ | ⟨p, calls, -, -, hEq, -⟩
    · rw [hEq]
      exact h₁
    · rw [hEq]
      exact sendPacket_settled h₁ p

theorem onConnected_settled {s : Socket δ A L} (h : Settled s) (hClient : s.client = true)
    (does : List (Request δ A L)) : Settled (s.onConnected does).1 := by
  unfold onConnected
  split
  · exact h
  · refine ⟨fun _ => rfl, fun hNo => ?_⟩
    have hSame := (requests_client { s with connected := true } does).1
    exact absurd (hSame.symm.trans hNo) (by simp [hClient])

theorem onClose_settled {s : Socket δ A L} (h : Settled s) : Settled s.onClose.1 := by
  unfold onClose
  split
  · exact ⟨fun _ => rfl, fun _ => ⟨rfl, rfl⟩⟩
  · exact h

theorem onDisconnect_settled {s : Socket δ A L} (h : Settled s) : Settled s.onDisconnect.1 := by
  unfold onDisconnect
  split
  · exact ⟨fun _ => rfl, fun _ => ⟨rfl, rfl⟩⟩
  · exact h

theorem onSocketioEvent_settled {s : Socket δ A L} (h : Settled s) (msgId : ℤ) (name : Text)
    (messages : List (Message δ)) (does : List (Request δ A L)) (ackMessage : List (Message δ)) :
    Settled (s.onSocketioEvent msgId name messages does ackMessage).1 := by
  unfold onSocketioEvent
  simp only
  split
  · have hDoes := requests_settled h does
    split
    · exact sendPacket_settled hDoes _
    · exact hDoes
  · split
    · exact sendPacket_settled h _
    · exact h

theorem onSocketioAck_settled {s : Socket δ A L} (h : Settled s) (msgId : ℤ)
    (messages : List (Message δ)) (does : List (Request δ A L)) :
    Settled (s.onSocketioAck msgId messages does).1 := by
  unfold onSocketioAck
  simp only
  split
  · have hSame : Settled { s with acks := s.acks.filter (·.1 ≠ (msgId % 2 ^ 32).toNat) } :=
      ⟨h.connected, h.closed⟩
    exact requests_settled hSame does
  · exact h

theorem onSocketioError_settled {s : Socket δ A L} (h : Settled s) (message : Message δ)
    (does : List (Request δ A L)) : Settled (s.onSocketioError message does).1 := by
  unfold onSocketioError
  split
  · exact requests_settled h does
  · exact h

theorem step_settled {s : Socket δ A L} (hSettled : Settled s) {i : Input δ A L}
    {r : Socket δ A L × List (Call δ A L)} (h : s.step i = .ok r) : Settled r.1 := by
  cases i with
  | request =>
    cases h
    exact requests_settled hSettled [_]
  | otherEmit =>
    cases h
    exact ⟨hSettled.connected, hSettled.closed⟩
  | opened =>
    cases h
    unfold sendConnect
    split <;> exact hSettled
  | disconnected =>
    cases h
    exact onDisconnect_settled hSettled
  | closed =>
    cases h
    exact onClose_settled hSettled
  | timeoutConnection ec =>
    cases h
    split
    · exact onClose_settled hSettled
    · exact hSettled
  | packet p does ackMessage =>
    rcases onMessagePacket_cases h with
      ⟨name, messages, -, rfl⟩ | ⟨-, rfl | ⟨hClient, rfl⟩ | rfl | ⟨messages, rfl⟩ | rfl⟩
    · exact onSocketioEvent_settled hSettled _ _ _ _ _
    · exact hSettled
    · exact onConnected_settled hSettled hClient does
    · exact onClose_settled hSettled
    · exact onSocketioAck_settled hSettled _ _ _
    · exact onSocketioError_settled hSettled _ _

theorem run_settled {s s' : Socket δ A L} (hSettled : Settled s) {is : List (Input δ A L)}
    {calls : List (Call δ A L)} (h : s.run is = .ok (s', calls)) : Settled s' := by
  induction is generalizing s calls with
  | nil =>
    cases h
    exact hSettled
  | cons i is ih =>
    rw [run] at h
    obtain ⟨⟨s₁, c₁⟩, hStep, h⟩ := Result.bind_eq_ok.1 h
    obtain ⟨⟨s₂, c₂⟩, hRun, h⟩ := Result.bind_eq_ok.1 h
    cases h
    exact ih (step_settled hSettled hStep) hRun

/-- In every run the packets handed over are sent once each and in order, or thrown away with the
queue, or they still wait; and they wait only while there is no connection. -/
theorem run_delivers {s s' : Socket δ A L} {is : List (Input δ A L)} {calls : List (Call δ A L)}
    (hSettled : Settled s) (h : s.run is = .ok (s', calls)) :
    (∃ done, s.packetQueue ++ Call.handed calls = done ++ s'.packetQueue ∧
      Interleave (Call.sent calls) (Call.discarded calls) done) ∧
    (s'.packetQueue ≠ [] → s'.client = true ∧ s'.connected = false) := by
  refine ⟨(run_moves h).flow, fun hQueue => ?_⟩
  have hEnd := run_settled hSettled h
  constructor
  · by_contra hClient
    exact hQueue (hEnd.closed (by simpa using hClient)).2
  · by_contra hConnected
    exact hQueue (hEnd.connected (by simpa using hConnected))

theorem settled_new (nsp : Text) (globalEventId : ℕ) :
    Settled (new nsp globalEventId : Socket δ A L) :=
  ⟨fun _ => rfl, fun h => by cases h⟩

/-- An event is sent before the connection, then the peer connects the socket, sends an event with
the identifier 5 and acknowledges the first one. -/
def exchange : List (Input Empty ℕ ℕ) :=
  [.request (.emit ['a'] [.int 3] (some 0)),
    .packet (.ofType PacketType.connect ['/'] .absent) [] [],
    .packet ⟨FrameType.message, PacketType.event, ['/'], 5, .array [.string ['b']], 0, []⟩ [] [],
    .packet ⟨FrameType.message, PacketType.ack, ['/'], 1, .array [], 0, []⟩
      [.emit ['c'] [] none] []]

theorem exists_exchange : ∃ s' calls, (new ['/'] 1).run exchange = .ok (s', calls) := ⟨_, _, rfl⟩

theorem run_delivers_exchange : ∃ s' calls, (new ['/'] 1).run exchange = .ok (s', calls) ∧
    (∃ done, [] ++ Call.handed calls = done ++ s'.packetQueue ∧
      Interleave (Call.sent calls) (Call.discarded calls) done) ∧
    (s'.packetQueue ≠ [] → s'.client = true ∧ s'.connected = false) := by
  obtain ⟨s', calls, h⟩ := exists_exchange
  exact ⟨s', calls, h, run_delivers (settled_new ['/'] 1) h⟩

end Socket

/-! ### Acknowledgements -/

namespace Call

/-- The callbacks that `emit` leaves, each with its identifier. -/
def registered : List (Call δ A L) → List (ℕ × A) :=
  List.filterMap fun
    | .registerAck id a => some (id, a)
    | _ => none

/-- The callbacks that are called, each with the identifier of the packet that it is called for. -/
def called : List (Call δ A L) → List (ℕ × A) :=
  List.filterMap fun
    | .ack id a _ => some (id, a)
    | _ => none

theorem registered_append (cs cs' : List (Call δ A L)) :
    registered (cs ++ cs') = registered cs ++ registered cs' :=
  List.filterMap_append

theorem called_append (cs cs' : List (Call δ A L)) : called (cs ++ cs') = called cs ++ called cs' :=
  List.filterMap_append

theorem called_sends (ps : List (Packet δ)) :
    registered (ps.map (send (A := A) (L := L))) = [] ∧
      called (ps.map (send (A := A) (L := L))) = [] := by
  induction ps with
  | nil => exact ⟨rfl, rfl⟩
  | cons p ps ih => exact ih

theorem called_quiet {cs : List (Call δ A L)} (h : ∀ c ∈ cs, c.IsQuiet) :
    registered cs = [] ∧ called cs = [] := by
  induction cs with
  | nil => exact ⟨rfl, rfl⟩
  | cons c cs ih =>
    have hc := h c (by simp)
    cases c with
    | sendConnect | listener | errorListener | socketOpened | socketClosed | removeSocket =>
      exact ih fun d hd => h d (by simp [hd])
    | sendPacket | send | discard | registerAck | ack => cases hc

end Call

theorem mapSet_subperm {κ α : Type} [DecidableEq κ] [LT κ] [DecidableLT κ] (k : κ) (v : α)
    (m : List (κ × α)) : (mapSet k v m).Subperm ((k, v) :: m) := by
  induction m with
  | nil => exact List.Subperm.refl _
  | cons p m ih =>
    rw [mapSet]
    split
    · exact ((List.sublist_cons_self p m).cons_cons _).subperm
    split
    · exact List.Subperm.refl _
    · exact ((List.subperm_cons p).2 ih).trans (List.Perm.swap _ _ _).subperm

theorem cons_filter_subperm {κ α : Type} [BEq κ] [LawfulBEq κ] [DecidableEq κ] {k : κ} {v : α}
    {m : List (κ × α)} (h : m.lookup k = some v) :
    ((k, v) :: m.filter (·.1 ≠ k)).Subperm m := by
  induction m with
  | nil => cases h
  | cons p m ih =>
    obtain ⟨k', v'⟩ := p
    by_cases hk : k = k'
    · subst hk
      rw [List.lookup_cons_self] at h
      cases h
      rw [List.filter_cons_of_neg (by simp)]
      exact (List.filter_sublist.cons_cons _).subperm
    · rw [List.lookup_cons, beq_false_of_ne hk] at h
      rw [List.filter_cons_of_pos (by simpa using fun hEq => hk hEq.symm)]
      exact (List.Perm.swap _ _ _).subperm.trans ((List.subperm_cons _).2 (ih h))

namespace Socket

theorem sendPacket_acks (s : Socket δ A L) (p : Packet δ) :
    (s.sendPacket p).1.acks = s.acks ∧ Call.registered (s.sendPacket p).2 = [] ∧
      Call.called (s.sendPacket p).2 = [] := by
  unfold sendPacket
  split
  · split
    · exact ⟨rfl, Call.called_sends _⟩
    · exact ⟨rfl, rfl, rfl⟩
  · exact ⟨rfl, rfl, rfl⟩

end Socket

/-- Each callback is called at most as often as it was registered, and for its own identifier. -/
theorem Moves.acks {s s' : Socket δ A L} {calls : List (Call δ A L)} (h : Moves s calls s') :
    (Call.called calls ++ s'.acks).Subperm (s.acks ++ Call.registered calls) := by
  induction h with
  | sendPacket s p =>
    obtain ⟨hAcks, hRegistered, hCalled⟩ := s.sendPacket_acks p
    rw [hAcks, hRegistered, hCalled, List.append_nil]
    exact List.Subperm.refl _
  | drain s =>
    obtain ⟨hRegistered, hCalled⟩ := Call.called_sends (A := A) (L := L) s.packetQueue
    rw [hRegistered, hCalled, List.append_nil]
    exact List.Subperm.refl _
  | discard s client =>
    show s.acks.Subperm (s.acks ++ [])
    rw [List.append_nil]
  | registerAck s a =>
    exact (mapSet_subperm _ a s.acks).trans (List.perm_append_singleton _ _).symm.subperm
  | ack s hLookup messages =>
    show (_ :: s.acks.filter _).Subperm (s.acks ++ [])
    rw [List.append_nil]
    exact cons_filter_subperm hLookup
  | quiet hCalls hAcks _ =>
    obtain ⟨hRegistered, hCalled⟩ := Call.called_quiet hCalls
    rw [hAcks, hRegistered, hCalled, List.append_nil]
    exact List.Subperm.refl _
  | @trans s₁ s₂ s₃ c₁ c₂ h₁ h₂ ih₁ ih₂ =>
    have hLast := (List.subperm_append_left (Call.called c₁)).2 ih₂
    have hFirst := (List.subperm_append_right (Call.registered c₂)).2 ih₁
    rw [Call.called_append, Call.registered_append, List.append_assoc, ← List.append_assoc s₁.acks]
    rw [List.append_assoc (Call.called c₁)] at hFirst
    exact hLast.trans hFirst

namespace Socket

/-- In a run from a socket without callbacks, those called are among those registered, each at most
as often and for its own identifier; so one that was registered once is called at most once. -/
theorem run_acks {s s' : Socket δ A L} {is : List (Input δ A L)} {calls : List (Call δ A L)}
    (hAcks : s.acks = []) (h : s.run is = .ok (s', calls)) :
    (Call.called calls).Subperm (Call.registered calls) ∧
      ((Call.registered calls).Nodup → (Call.called calls).Nodup) := by
  have hAll := (run_moves h).acks
  rw [hAcks, List.nil_append] at hAll
  have hCalled := (List.sublist_append_left _ s'.acks).subperm.trans hAll
  refine ⟨hCalled, fun hNodup => ?_⟩
  obtain ⟨l, hPerm, hSublist⟩ := hCalled
  exact hPerm.nodup_iff.1 (hSublist.nodup hNodup)

theorem run_acks_exchange : ∃ s' calls, (new ['/'] 1).run exchange = .ok (s', calls) ∧
    (Call.called calls).Subperm (Call.registered calls) ∧
      ((Call.registered calls).Nodup → (Call.called calls).Nodup) := by
  obtain ⟨s', calls, h⟩ := exists_exchange
  exact ⟨s', calls, h, run_acks rfl h⟩

end Socket

/-! ### Events -/

/-- The identifiers of the acknowledgements that are handed over. -/
def Call.answered (cs : List (Call δ A L)) : List ℤ :=
  (Call.handed cs).filterMap fun p =>
    if p.type = PacketType.ack + PacketType.undetermined then some p.packId else none

theorem Call.answered_append (cs cs' : List (Call δ A L)) :
    answered (cs ++ cs') = answered cs ++ answered cs' := by
  rw [answered, handed_append, List.filterMap_append]
  rfl

namespace Socket

/-- The identifier that an input asks an answer to: that of a named event of this socket. -/
def demand (s : Socket δ A L) : Input δ A L → List ℤ
  | .packet p _ _ =>
    if s.client = true ∧ p.nsp = s.nsp ∧
        (p.type = PacketType.event ∨ p.type = PacketType.binaryEvent) ∧ 0 ≤ p.packId then
      match eventOf p.message with
      | .ok (some _) => [p.packId]
      | _ => []
    else []
  | _ => []

/-- The identifiers that a run asks answers to. -/
def demands (s : Socket δ A L) : List (Input δ A L) → List ℤ
  | [] => []
  | i :: is =>
    match s.step i with
    | .ok (s', _) => s.demand i ++ s'.demands is
    | .error _ => s.demand i

theorem handed_sendPacket (s : Socket δ A L) (p : Packet δ) :
    Call.handed (s.sendPacket p).2 = if s.client then [p] else [] := by
  unfold sendPacket
  split
  · split
    · exact congrArg (p :: ·) (Call.handed_sends _)
    · rfl
  · rfl

theorem answered_of_handed {cs : List (Call δ A L)} (h : Call.handed cs = []) :
    Call.answered cs = [] := by
  rw [Call.answered, h]
  rfl

theorem answered_requests (s : Socket δ A L) (rs : List (Request δ A L)) :
    Call.answered (s.requests rs).2 = [] := by
  induction rs generalizing s with
  | nil => rfl
  | cons r rs ih =>
    obtain ⟨s₁, -, hCases⟩ := s.request_cases r
    have hOne : Call.answered (s.request r).2 = [] := by
      rcases hCases with ⟨-, h⟩ | ⟨p, calls, hType, hHanded, -, h⟩
      · rw [h]
        rfl
      · rw [h, Call.answered_append, answered_of_handed hHanded, Call.answered, handed_sendPacket]
        split
        · simp [hType]
        · rfl
    rw [requests, Call.answered_append, hOne, ih]
    rfl

/-- An acknowledgement is handed over while the socket has its client. -/
theorem answered_ack {s : Socket δ A L} (hClient : s.client = true) (msgId : ℤ)
    (ackMessage : List (Message δ)) : Call.answered (s.ack msgId ackMessage).2 = [msgId] := by
  rw [Call.answered, ack, handed_sendPacket, if_pos hClient]
  rfl

theorem answered_onSocketioEvent {s : Socket δ A L} (hClient : s.client = true) (msgId : ℤ)
    (name : Text) (messages : List (Message δ)) (does : List (Request δ A L))
    (ackMessage : List (Message δ)) :
    Call.answered (s.onSocketioEvent msgId name messages does ackMessage).2 =
      if 0 ≤ msgId then [msgId] else [] := by
  unfold onSocketioEvent
  simp only [decide_eq_true_eq]
  split
  · rename_i func hFunc
    have hAfter := (s.requests_client does).1.trans hClient
    rw [← List.singleton_append, Call.answered_append, Call.answered_append, answered_requests]
    split
    · exact answered_ack hAfter _ _
    · rfl
  · split
    · exact answered_ack hClient _ _
    · rfl

theorem answered_onConnected (s : Socket δ A L) (does : List (Request δ A L)) :
    Call.answered (s.onConnected does).2 = [] := by
  unfold onConnected
  split
  · rfl
  · simp only
    rw [← List.singleton_append, Call.answered_append, Call.answered_append, answered_requests,
      answered_of_handed (Call.handed_sends _)]
    rfl

theorem answered_onSocketioAck (s : Socket δ A L) (msgId : ℤ) (messages : List (Message δ))
    (does : List (Request δ A L)) : Call.answered (s.onSocketioAck msgId messages does).2 = [] := by
  unfold onSocketioAck
  simp only
  split
  · exact answered_requests _ does
  · rfl

theorem answered_onSocketioError (s : Socket δ A L) (message : Message δ)
    (does : List (Request δ A L)) : Call.answered (s.onSocketioError message does).2 = [] := by
  unfold onSocketioError
  split
  · exact answered_requests _ does
  · rfl

theorem answered_onClose (s : Socket δ A L) : Call.answered s.onClose.2 = [] := by
  unfold onClose
  split <;> rfl

theorem demand_of_handlesEvent {s : Socket δ A L} {p : Packet δ} {name : Text}
    {messages : List (Message δ)} (h : s.HandlesEvent p name messages)
    (does : List (Request δ A L)) (ackMessage : List (Message δ)) :
    s.demand (.packet p does ackMessage) = if 0 ≤ p.packId then [p.packId] else [] := by
  obtain ⟨hClient, hNsp, hType, hEvent⟩ := h
  rw [demand, hEvent]
  simp [hClient, hNsp, hType]

theorem demand_of_not {s : Socket δ A L} {p : Packet δ}
    (h : ∀ name messages, ¬s.HandlesEvent p name messages) (does : List (Request δ A L))
    (ackMessage : List (Message δ)) : s.demand (.packet p does ackMessage) = [] := by
  rw [demand]
  split
  · rename_i hAll
    split
    · rename_i event hEvent
      exact absurd ⟨hAll.1, hAll.2.1, hAll.2.2.1, hEvent⟩ (h event.1 event.2)
    · rfl
  · rfl

/-- A step hands over the acknowledgement that it owes, and no other. -/
theorem step_answers {s : Socket δ A L} {i : Input δ A L} {r : Socket δ A L × List (Call δ A L)}
    (h : s.step i = .ok r) : Call.answered r.2 = s.demand i := by
  cases i with
  | request q =>
    cases h
    have hOne := s.answered_requests [q]
    rwa [requests, requests, List.append_nil] at hOne
  | otherEmit =>
    cases h
    rfl
  | opened =>
    cases h
    unfold sendConnect
    split <;> rfl
  | disconnected =>
    cases h
    unfold onDisconnect
    split <;> rfl
  | closed =>
    cases h
    exact s.answered_onClose
  | timeoutConnection ec =>
    cases h
    split
    · exact s.answered_onClose
    · rfl
  | packet p does ackMessage =>
    rcases onMessagePacket_cases h with
      ⟨name, messages, hEvent, rfl⟩ | ⟨hNo, rfl | ⟨-, rfl⟩ | rfl | ⟨messages, rfl⟩ | rfl⟩
    · rw [demand_of_handlesEvent hEvent, answered_onSocketioEvent hEvent.1]
    · rw [demand_of_not hNo]
      rfl
    · rw [demand_of_not hNo, answered_onConnected]
    · rw [demand_of_not hNo, answered_onClose]
    · rw [demand_of_not hNo, answered_onSocketioAck]
    · rw [demand_of_not hNo, answered_onSocketioError]

/-- Every named event with an identifier is acknowledged once, with that identifier and in the order
in which the events come, whether or not it has a listener and whatever the listener does.  An event
packet without a name is not heard and not acknowledged. -/
theorem run_answers {s s' : Socket δ A L} {is : List (Input δ A L)} {calls : List (Call δ A L)}
    (h : s.run is = .ok (s', calls)) : Call.answered calls = s.demands is := by
  induction is generalizing s calls with
  | nil =>
    cases h
    rfl
  | cons i is ih =>
    rw [run] at h
    obtain ⟨⟨s₁, c₁⟩, hStep, h⟩ := Result.bind_eq_ok.1 h
    obtain ⟨⟨s₂, c₂⟩, hRun, h⟩ := Result.bind_eq_ok.1 h
    cases h
    rw [demands, hStep, Call.answered_append, step_answers hStep, ih hRun]

theorem run_answers_exchange : ∃ s' calls, (new ['/'] 1).run exchange = .ok (s', calls) ∧
    Call.answered calls = (new ['/'] 1 : Socket Empty ℕ ℕ).demands exchange := by
  obtain ⟨s', calls, h⟩ := exists_exchange
  exact ⟨s', calls, h, run_answers h⟩

end Socket

end Sio
