import TaquinSolver.Sio.Delivery

/-! Programs over a socket.  The main thread asks for one thing after another, and on the thread of
the network each packet leads to at most one callback, which reads and writes the program's memory
and asks for things itself.  What the callbacks do is a parameter. -/

namespace Sio

open Java (Text)
open Concurrent

variable {σ δ A L : Type}

/-- A call from a socket to the program. -/
inductive Callback (δ A L : Type)
  | listener (func : L) (event : Event δ)
  | ack (a : A) (messages : List (Message δ))
  | error (func : L) (message : Message δ)
  | opened (nsp : Text)

/-- What a callback leaves in memory, what it asks of the socket, and the acknowledgement that it
puts. -/
structure Reaction (σ δ A L : Type) where
  memory : σ
  does : List (Request δ A L)
  ackMessage : List (Message δ)

namespace Call

/-- The callbacks of the program among the calls of a socket. -/
def callback : Call δ A L → Option (Callback δ A L)
  | .listener func event => some (.listener func event)
  | .ack _ a messages => some (.ack a messages)
  | .errorListener func message => some (.error func message)
  | .socketOpened nsp => some (.opened nsp)
  | _ => none

def callbacks : List (Call δ A L) → List (Callback δ A L) := List.filterMap callback

/-- The events that are handed over to be sent, each as its message. -/
def emitted (cs : List (Call δ A L)) : List (Message δ) :=
  (handed cs).filterMap fun p =>
    if p.type = PacketType.event + PacketType.undetermined then some p.message else none

theorem callbacks_append (cs cs' : List (Call δ A L)) :
    callbacks (cs ++ cs') = callbacks cs ++ callbacks cs' := List.filterMap_append

theorem emitted_append (cs cs' : List (Call δ A L)) :
    emitted (cs ++ cs') = emitted cs ++ emitted cs' := by
  rw [emitted, handed_append, List.filterMap_append]
  rfl

theorem callbacks_sends (ps : List (Packet δ)) :
    callbacks (ps.map (send (A := A) (L := L))) = [] := by
  rw [callbacks, List.filterMap_eq_nil_iff]
  simp [callback]

theorem emitted_sends (ps : List (Packet δ)) :
    emitted (ps.map (send (A := A) (L := L))) = [] := by
  rw [emitted, handed_sends]
  rfl

end Call

/-- The message of an event that is asked for. -/
def Request.emission : Request δ A L → Option (Message δ)
  | .emit name msglist _ => some (.array (.string name :: msglist))
  | _ => none

/-- A program: its memory, its socket, and what its main thread still asks for. -/
structure Program (σ δ A L : Type) where
  memory : σ
  socket : Socket δ A L
  main : List (Request δ A L)

/-- What can happen to a program.  The connection is made, lost and given up by the client. -/
inductive Program.Action (δ : Type)
  | main
  | packet (p : Packet δ)
  | opened
  | disconnected
  | closed

namespace Program

variable (react : σ → Callback δ A L → Result (Reaction σ δ A L))

/-- A packet.  The callback that it leads to does not depend on what the callback does. -/
def receive (P : Program σ δ A L) (p : Packet δ) :
    Result (Program σ δ A L × List (Call δ A L)) := do
  let (socket, calls) ← P.socket.onMessagePacket p [] []
  match calls.findSome? Call.callback with
  | none => return ({ P with socket }, calls)
  | some callback =>
    let r ← react P.memory callback
    let (socket, calls) ← P.socket.onMessagePacket p r.does r.ackMessage
    return ({ P with memory := r.memory, socket }, calls)

def step (P : Program σ δ A L) : Action δ → Result (Program σ δ A L × List (Call δ A L))
  | .main =>
    match P.main with
    | [] => .ok (P, [])
    | r :: rest =>
      .ok ({ P with socket := (P.socket.request r).1, main := rest }, (P.socket.request r).2)
  | .packet p => P.receive react p
  | .opened => .ok ({ P with socket := P.socket.sendConnect.1 }, P.socket.sendConnect.2)
  | .disconnected => .ok ({ P with socket := P.socket.onDisconnect.1 }, P.socket.onDisconnect.2)
  | .closed => .ok ({ P with socket := P.socket.onClose.1 }, P.socket.onClose.2)

/-- A run, and what the socket calls in it. -/
def run (P : Program σ δ A L) : List (Action δ) → Result (Program σ δ A L × List (Call δ A L))
  | [] => .ok (P, [])
  | a :: as => do
    let (P, calls) ← P.step react a
    let (P, calls') ← P.run as
    return (P, calls ++ calls')

/-- The callbacks alone, one after another: what they leave in memory, and what each of them asks
for. -/
def reactions (m : σ) : List (Callback δ A L) → Result (σ × List (List (Request δ A L)))
  | [] => .ok (m, [])
  | callback :: rest => do
    let r ← react m callback
    let (m, does) ← reactions r.memory rest
    return (m, r.does :: does)

end Program

/-! ### Requests -/

namespace Socket

theorem callbacks_sendPacket (s : Socket δ A L) (p : Packet δ) :
    Call.callbacks (s.sendPacket p).2 = [] := by
  unfold sendPacket
  split
  · split
    · exact Call.callbacks_sends _
    · rfl
  · rfl

theorem emitted_sendPacket (s : Socket δ A L) (p : Packet δ) (hClient : s.client = true) :
    Call.emitted (s.sendPacket p).2 =
      if p.type = PacketType.event + PacketType.undetermined then [p.message] else [] := by
  rw [Call.emitted, handed_sendPacket, if_pos hClient, List.filterMap_cons, List.filterMap_nil]
  split <;> rename_i h <;> split at h <;> simp_all

/-- A request calls nothing back, and an `emit` is one event, if the socket has its client. -/
theorem request_emits (s : Socket δ A L) (r : Request δ A L) :
    Call.callbacks (s.request r).2 = [] ∧
      Call.emitted (s.request r).2 = if s.client then r.emission.toList else [] := by
  cases r with
  | emit name msglist ack =>
    rw [request, emit]
    split
    · rename_i hClient
      cases ack with
      | some ack =>
        constructor
        · exact callbacks_sendPacket _ _
        · exact emitted_sendPacket _ _ hClient
      | none =>
        constructor
        · exact callbacks_sendPacket _ _
        · exact emitted_sendPacket _ _ hClient
    · exact ⟨rfl, rfl⟩
  | close =>
    rw [request, close]
    split
    · rename_i hOpen
      refine ⟨callbacks_sendPacket _ _, ?_⟩
      rw [emitted_sendPacket _ _ hOpen.1, if_pos hOpen.1]
      rfl
    · exact ⟨rfl, by split <;> rfl⟩
  | on | off | offAll | onError | offError => exact ⟨rfl, by split <;> rfl⟩

theorem requests_emit {s : Socket δ A L} (hClient : s.client = true) (rs : List (Request δ A L)) :
    Call.callbacks (s.requests rs).2 = [] ∧
      Call.emitted (s.requests rs).2 = rs.filterMap Request.emission := by
  induction rs generalizing s with
  | nil => exact ⟨rfl, rfl⟩
  | cons r rs ih =>
    have hNext : (s.request r).1.client = true := (s.requests_client [r]).1.trans hClient
    obtain ⟨hCallbacks, hEmitted⟩ := s.request_emits r
    rw [if_pos hClient] at hEmitted
    rw [requests, Call.callbacks_append, Call.emitted_append, hCallbacks, hEmitted,
      (ih hNext).1, (ih hNext).2]
    refine ⟨rfl, ?_⟩
    cases hOne : r.emission with
    | none => rw [List.filterMap_cons_none hOne]; rfl
    | some msg => rw [List.filterMap_cons_some hOne]; rfl

theorem ack_emits {s : Socket δ A L} (hClient : s.client = true) (msgId : ℤ)
    (ackMessage : List (Message δ)) :
    Call.callbacks (s.ack msgId ackMessage).2 = [] ∧
      Call.emitted (s.ack msgId ackMessage).2 = [] := by
  refine ⟨callbacks_sendPacket _ _, ?_⟩
  rw [ack, emitted_sendPacket _ _ hClient]
  rfl

/-- What a request makes of the listeners. -/
def rebind (binding : List (Text × L)) : Request δ A L → List (Text × L)
  | .on name func => mapSet name func binding
  | .off name => binding.filter (·.1 ≠ name)
  | .offAll => []
  | _ => binding

theorem lookup_cons_eq {κ α : Type} [BEq κ] [LawfulBEq κ] [DecidableEq κ] (p : κ × α) (k : κ)
    (m : List (κ × α)) :
    (p :: m).lookup k = if k = p.1 then some p.2 else m.lookup k := by
  rw [List.lookup_cons]
  by_cases hEq : k = p.1
  · rw [if_pos hEq, beq_iff_eq.2 hEq]
  · rw [if_neg hEq, beq_eq_false_iff_ne.2 hEq]

theorem lookup_mapSet {κ α : Type} [BEq κ] [LawfulBEq κ] [DecidableEq κ] [LT κ] [DecidableLT κ]
    (k k' : κ) (v : α) (m : List (κ × α)) :
    (mapSet k v m).lookup k' = if k' = k then some v else m.lookup k' := by
  induction m with
  | nil => exact lookup_cons_eq (k, v) k' []
  | cons p m ih =>
    rw [mapSet]
    split
    · rename_i hKey
      rw [lookup_cons_eq, lookup_cons_eq, ← hKey]
      split <;> rfl
    · split
      · exact lookup_cons_eq (k, v) k' (p :: m)
      · rename_i hKey _
        rw [lookup_cons_eq, lookup_cons_eq, ih]
        by_cases hEq : k' = k
        · rw [if_pos hEq, if_pos hEq, hEq, if_neg hKey]
        · rw [if_neg hEq, if_neg hEq]

theorem lookup_filter_ne {κ α : Type} [BEq κ] [LawfulBEq κ] [DecidableEq κ] (k k' : κ)
    (m : List (κ × α)) :
    (m.filter (·.1 ≠ k)).lookup k' = if k' = k then none else m.lookup k' := by
  induction m with
  | nil => simp
  | cons p m ih =>
    rw [List.filter_cons, lookup_cons_eq]
    split
    · rename_i hKey
      have hKey : p.1 ≠ k := by simpa using hKey
      rw [lookup_cons_eq, ih]
      by_cases hEq : k' = k
      · rw [if_pos hEq, if_pos hEq, hEq, if_neg (Ne.symm hKey)]
      · rw [if_neg hEq, if_neg hEq]
    · rename_i hKey
      have hKey : p.1 = k := by simpa using hKey
      rw [ih, hKey]
      by_cases hEq : k' = k
      · rw [if_pos hEq, if_pos hEq]
      · rw [if_neg hEq, if_neg hEq, if_neg hEq]

theorem sendPacket_binding (s : Socket δ A L) (p : Packet δ) :
    (s.sendPacket p).1.eventBinding = s.eventBinding := by
  unfold sendPacket
  split
  · split <;> rfl
  · rfl

theorem request_binding (s : Socket δ A L) (r : Request δ A L) :
    (s.request r).1.eventBinding = rebind s.eventBinding r := by
  cases r with
  | emit name msglist ack =>
    rw [request, emit]
    split
    · cases ack with
      | some ack => exact sendPacket_binding _ _
      | none => exact sendPacket_binding _ _
    · rfl
  | close =>
    rw [request, close]
    split
    · exact sendPacket_binding _ _
    · rfl
  | on | off | offAll | onError | offError => rfl

theorem requests_binding (s : Socket δ A L) (rs : List (Request δ A L)) :
    (s.requests rs).1.eventBinding = rs.foldl rebind s.eventBinding := by
  induction rs generalizing s with
  | nil => rfl
  | cons r rs ih =>
    rw [requests, List.foldl_cons, ← request_binding]
    exact ih _

/-! ### Packets -/

/-- What the callback of an acknowledgement gets. -/
def ackMessages : Message δ → List (Message δ)
  | .array l => l
  | msg => [msg]

/-- The callback that a packet leads to, whatever the callback does. -/
def callbackOf (s : Socket δ A L) (p : Packet δ) : Option (Callback δ A L) :=
  if s.client = false ∨ p.nsp ≠ s.nsp then none
  else if p.type = PacketType.connect then if s.connected then none else some (.opened s.nsp)
  else if p.type = PacketType.event ∨ p.type = PacketType.binaryEvent then
    (eventOf p.message).toOption.join.bind fun event =>
      (s.eventBinding.lookup event.1).map fun func =>
        .listener func ⟨s.nsp, event.1, event.2, decide (0 ≤ p.packId)⟩
  else if p.type = PacketType.ack ∨ p.type = PacketType.binaryAck then
    (s.acks.lookup (p.packId % 2 ^ 32).toNat).map fun a => .ack a (ackMessages p.message)
  else if p.type = PacketType.error then s.errorListener.map fun func => .error func p.message
  else none

/-- A listener is called for an event that it is bound to. -/
theorem lookup_of_callbackOf {s : Socket δ A L} {p : Packet δ} {func : L} {event : Event δ}
    (h : s.callbackOf p = some (.listener func event)) :
    s.eventBinding.lookup event.name = some func := by
  unfold callbackOf at h
  split at h
  · cases h
  split at h
  · split at h <;> cases h
  split at h
  · obtain ⟨⟨name, messages⟩, -, h⟩ := Option.bind_eq_some_iff.1 h
    obtain ⟨func', hFunc, h⟩ := Option.map_eq_some_iff.1 h
    cases h
    exact hFunc
  split at h
  · obtain ⟨_, -, h⟩ := Option.map_eq_some_iff.1 h
    cases h
  split at h
  · obtain ⟨_, -, h⟩ := Option.map_eq_some_iff.1 h
    cases h
  · cases h

/-- What a packet leads to, when the callback `cb` asks for `does`. -/
structure Leads (s : Socket δ A L) (cb : Option (Callback δ A L)) (does : List (Request δ A L))
    (r : Socket δ A L × List (Call δ A L)) : Prop where
  callbacks : Call.callbacks r.2 = cb.toList
  emitted : Call.emitted r.2 = if cb.isSome then does.filterMap Request.emission else []
  binding : r.1.eventBinding =
    if cb.isSome then does.foldl rebind s.eventBinding else s.eventBinding
  nsp : r.1.nsp = s.nsp
  client : r.1.client = true → s.client = true

theorem Leads.nothing (s : Socket δ A L) (does : List (Request δ A L)) :
    Leads s none does (s, []) := ⟨rfl, rfl, rfl, rfl, id⟩

/-- A call to the program, what it asks for, and calls that neither call back nor hand over. -/
theorem leads_of_callback {s : Socket δ A L} (hClient : s.client = true) {c : Call δ A L}
    {cb : Callback δ A L} (hc : c.callback = some cb) (hHanded : Call.handed [c] = [])
    (does : List (Request δ A L)) (rest : List (Call δ A L)) (hCallbacks : Call.callbacks rest = [])
    (hEmitted : Call.emitted rest = []) {t : Socket δ A L}
    (hBinding : t.eventBinding = (s.requests does).1.eventBinding) (hNsp : t.nsp = s.nsp) :
    Leads s (some cb) does (t, c :: ((s.requests does).2 ++ rest)) := by
  obtain ⟨hQuiet, hDoes⟩ := requests_emit hClient does
  have hFirst : Call.callbacks [c] = [cb] := by
    rw [Call.callbacks, List.filterMap_cons_some hc, List.filterMap_nil]
  have hNone : Call.emitted [c] = [] := by
    rw [Call.emitted, hHanded, List.filterMap_nil]
  refine ⟨?_, ?_, ?_, hNsp, fun _ => hClient⟩
  · rw [← List.singleton_append, Call.callbacks_append, Call.callbacks_append, hFirst, hQuiet,
      hCallbacks]
    rfl
  · rw [← List.singleton_append, Call.emitted_append, Call.emitted_append, hNone, hDoes, hEmitted]
    simp
  · rw [hBinding, requests_binding]
    rfl

theorem onConnected_leads {s : Socket δ A L} (hClient : s.client = true)
    (does : List (Request δ A L)) :
    Leads s (if s.connected then none else some (.opened s.nsp)) does (s.onConnected does) := by
  unfold onConnected
  split
  · exact .nothing s does
  · obtain ⟨hCallbacks, hEmitted, hBinding, hNsp, _⟩ := leads_of_callback
      (s := { s with connected := true }) hClient (c := .socketOpened s.nsp) rfl rfl does _
      (Call.callbacks_sends _) (Call.emitted_sends _) rfl (requests_client _ _).2
    exact ⟨hCallbacks, hEmitted, hBinding, hNsp, fun _ => hClient⟩

theorem onSocketioEvent_leads {s : Socket δ A L} (hClient : s.client = true) (msgId : ℤ)
    (name : Text) (messages : List (Message δ)) (does : List (Request δ A L))
    (ackMessage : List (Message δ)) :
    Leads s ((s.eventBinding.lookup name).map fun func =>
        .listener func ⟨s.nsp, name, messages, decide (0 ≤ msgId)⟩) does
      (s.onSocketioEvent msgId name messages does ackMessage) := by
  unfold onSocketioEvent
  dsimp only
  split
  · rename_i func hFunc
    rw [hFunc]
    have hAfter := s.requests_client does
    split
    · obtain ⟨hCallbacks, hEmitted⟩ := ack_emits (hAfter.1.trans hClient) msgId ackMessage
      exact leads_of_callback hClient rfl rfl does _ hCallbacks hEmitted (sendPacket_binding _ _)
        ((sendPacket_client _ _).2.trans hAfter.2)
    · exact leads_of_callback hClient rfl rfl does [] rfl rfl rfl hAfter.2
  · rename_i hFunc
    rw [hFunc]
    split
    · obtain ⟨hCallbacks, hEmitted⟩ := ack_emits hClient msgId ([] : List (Message δ))
      exact ⟨hCallbacks, hEmitted, sendPacket_binding _ _, (sendPacket_client _ _).2,
        fun _ => hClient⟩
    · exact .nothing s does

theorem onSocketioAck_leads {s : Socket δ A L} (hClient : s.client = true) (msgId : ℤ)
    (messages : List (Message δ)) (does : List (Request δ A L)) :
    Leads s ((s.acks.lookup (msgId % 2 ^ 32).toNat).map fun a => .ack a messages) does
      (s.onSocketioAck msgId messages does) := by
  unfold onSocketioAck
  dsimp only
  split
  · rename_i a hAck
    rw [hAck]
    obtain ⟨hCallbacks, hEmitted, hBinding, hNsp, _⟩ := leads_of_callback
      (s := { s with acks := s.acks.filter (·.1 ≠ (msgId % 2 ^ 32).toNat) }) hClient
      (c := .ack (msgId % 2 ^ 32).toNat a messages) rfl rfl does [] rfl rfl rfl
      (requests_client _ _).2
    rw [List.append_nil] at hCallbacks hEmitted
    exact ⟨hCallbacks, hEmitted, hBinding, hNsp, fun _ => hClient⟩
  · rename_i hAck
    rw [hAck]
    exact .nothing s does

theorem onSocketioError_leads {s : Socket δ A L} (hClient : s.client = true) (message : Message δ)
    (does : List (Request δ A L)) :
    Leads s (s.errorListener.map fun func => .error func message) does
      (s.onSocketioError message does) := by
  unfold onSocketioError
  split
  · rename_i func hFunc
    rw [hFunc]
    have h := leads_of_callback hClient (c := .errorListener func message) rfl rfl does [] rfl rfl
      (t := (s.requests does).1) rfl (s.requests_client does).2
    rwa [List.append_nil] at h
  · rename_i hFunc
    rw [hFunc]
    exact .nothing s does

theorem onMessagePacket_leads {s : Socket δ A L} {p : Packet δ} {does : List (Request δ A L)}
    {ackMessage : List (Message δ)} {r : Socket δ A L × List (Call δ A L)}
    (h : s.onMessagePacket p does ackMessage = .ok r) : Leads s (s.callbackOf p) does r := by
  unfold callbackOf
  unfold onMessagePacket at h
  split at h
  · rename_i hOther
    cases h
    rw [if_pos hOther]
    exact .nothing s does
  rename_i hSame
  rw [if_neg hSame]
  rw [not_or, Bool.not_eq_false, not_not] at hSame
  have hClient := hSame.1
  split at h
  · cases h
  split at h
  · rename_i hConnect
    cases h
    rw [if_pos hConnect]
    exact onConnected_leads hClient does
  rename_i hConnect
  rw [if_neg hConnect]
  split at h
  · rename_i hDisconnect
    cases h
    rw [hDisconnect, if_neg (by decide), if_neg (by decide), if_neg (by decide), onClose,
      if_pos hClient]
    exact ⟨rfl, rfl, rfl, rfl, fun _ => hClient⟩
  split at h
  · rename_i hEvent
    rw [if_pos hEvent]
    obtain ⟨event, hRead, h⟩ := Result.bind_eq_ok.1 h
    rw [hRead]
    cases event with
    | none =>
      cases h
      exact .nothing s does
    | some event =>
      cases h
      exact onSocketioEvent_leads hClient p.packId event.1 event.2 does ackMessage
  rename_i hEvent
  rw [if_neg hEvent]
  split at h
  · rename_i hAck
    rw [if_pos hAck]
    cases hMsg : p.message with
    | absent =>
      rw [hMsg] at h
      cases h
    | null | bool | int | double | string | binary | array | object =>
      rw [hMsg] at h
      cases h
      exact onSocketioAck_leads hClient p.packId _ does
  rename_i hAck
  rw [if_neg hAck]
  split at h
  · rename_i hError
    cases h
    rw [if_pos hError]
    exact onSocketioError_leads hClient p.message does
  · rename_i hError
    cases h
    rw [if_neg hError]
    exact .nothing s does

end Socket

/-! ### Runs -/

namespace Program

variable {react : σ → Callback δ A L → Result (Reaction σ δ A L)}

theorem reactions_append {m₁ m₂ m₃ : σ} {cs₁ cs₂ : List (Callback δ A L)}
    {o₁ o₂ : List (List (Request δ A L))} (h₁ : reactions react m₁ cs₁ = .ok (m₂, o₁))
    (h₂ : reactions react m₂ cs₂ = .ok (m₃, o₂)) :
    reactions react m₁ (cs₁ ++ cs₂) = .ok (m₃, o₁ ++ o₂) := by
  induction cs₁ generalizing m₁ o₁ with
  | nil =>
    cases h₁
    exact h₂
  | cons c cs ih =>
    obtain ⟨r, hReact, h₁⟩ := Result.bind_eq_ok.1 h₁
    obtain ⟨⟨m, o⟩, hRest, h₁⟩ := Result.bind_eq_ok.1 h₁
    cases h₁
    rw [List.cons_append, reactions, hReact, Result.ok_bind, ih hRest]
    rfl

/-- What a step does: the callbacks make the memory, and the events that are handed over come from
the main thread or from the callbacks. -/
def Refines (react : σ → Callback δ A L → Result (Reaction σ δ A L)) (P : Program σ δ A L)
    (calls : List (Call δ A L)) (P' : Program σ δ A L) : Prop :=
  ∃ outs did fromMain, reactions react P.memory (Call.callbacks calls) = .ok (P'.memory, outs) ∧
    P.main = did ++ P'.main ∧ List.Sublist fromMain (did.filterMap Request.emission) ∧
    Interleave fromMain (outs.flatten.filterMap Request.emission) (Call.emitted calls)

theorem Refines.trans {P₁ P₂ P₃ : Program σ δ A L} {c₁ c₂ : List (Call δ A L)}
    (h₁ : Refines react P₁ c₁ P₂) (h₂ : Refines react P₂ c₂ P₃) :
    Refines react P₁ (c₁ ++ c₂) P₃ := by
  obtain ⟨o₁, d₁, f₁, hMemory₁, hMain₁, hSub₁, hMix₁⟩ := h₁
  obtain ⟨o₂, d₂, f₂, hMemory₂, hMain₂, hSub₂, hMix₂⟩ := h₂
  refine ⟨o₁ ++ o₂, d₁ ++ d₂, f₁ ++ f₂, ?_, ?_, ?_, ?_⟩
  · rw [Call.callbacks_append]
    exact reactions_append hMemory₁ hMemory₂
  · rw [hMain₁, hMain₂, List.append_assoc]
  · rw [List.filterMap_append]
    exact hSub₁.append hSub₂
  · rw [List.flatten_append, List.filterMap_append, Call.emitted_append]
    exact hMix₁.append hMix₂

/-- Nothing is called back or handed over. -/
theorem Refines.quiet {P P' : Program σ δ A L} {calls : List (Call δ A L)}
    (hMemory : P'.memory = P.memory) (hMain : P'.main = P.main)
    (hCallbacks : Call.callbacks calls = []) (hEmitted : Call.emitted calls = []) :
    Refines react P calls P' := by
  refine ⟨[], [], [], ?_, hMain.symm, List.Sublist.refl _, ?_⟩
  · rw [hCallbacks, hMemory]
    rfl
  · rw [hEmitted]
    exact .nil

/-- What a step can do. -/
inductive Stepped (react : σ → Callback δ A L → Result (Reaction σ δ A L)) (P : Program σ δ A L) :
    Action δ → List (Call δ A L) → Program σ δ A L → Prop
  | main {r : Request δ A L} {rest : List (Request δ A L)} (hMain : P.main = r :: rest) :
      Stepped react P .main (P.socket.request r).2
        { P with socket := (P.socket.request r).1, main := rest }
  | callback {p : Packet δ} {cb : Callback δ A L} {r : Reaction σ δ A L} {s : Socket δ A L}
      {calls : List (Call δ A L)} (hCallback : P.socket.callbackOf p = some cb)
      (hReact : react P.memory cb = .ok r)
      (hLeads : Socket.Leads P.socket (some cb) r.does (s, calls)) :
      Stepped react P (.packet p) calls { P with memory := r.memory, socket := s }
  | quiet {a : Action δ} {s : Socket δ A L} {calls : List (Call δ A L)}
      (hPacket : ∀ p, a = .packet p → P.socket.callbackOf p = none)
      (hLeads : Socket.Leads P.socket none [] (s, calls)) :
      Stepped react P a calls { P with socket := s }

theorem step_stepped {P P' : Program σ δ A L} {a : Action δ} {calls : List (Call δ A L)}
    (h : P.step react a = .ok (P', calls)) : Stepped react P a calls P' := by
  cases a with
  | main =>
    rw [step] at h
    cases hMain : P.main with
    | nil =>
      rw [hMain] at h
      cases h
      exact .quiet (by simp) (.nothing P.socket [])
    | cons r rest =>
      rw [hMain] at h
      cases h
      exact .main hMain
  | packet p =>
    obtain ⟨⟨s, calls₀⟩, hFirst, h⟩ := Result.bind_eq_ok.1 h
    have hLeads := Socket.onMessagePacket_leads hFirst
    have hFind : calls₀.findSome? Call.callback = P.socket.callbackOf p := by
      rw [← List.head?_filterMap]
      refine (congrArg List.head? hLeads.callbacks).trans ?_
      cases P.socket.callbackOf p <;> rfl
    dsimp only at h
    rw [hFind] at h
    cases hCallback : P.socket.callbackOf p with
    | none =>
      rw [hCallback] at h hLeads
      cases h
      refine .quiet (fun q hq => ?_) hLeads
      cases hq
      exact hCallback
    | some cb =>
      rw [hCallback] at h
      obtain ⟨r, hReact, h⟩ := Result.bind_eq_ok.1 h
      obtain ⟨⟨s', calls'⟩, hAgain, h⟩ := Result.bind_eq_ok.1 h
      cases h
      have hAgain := Socket.onMessagePacket_leads hAgain
      rw [hCallback] at hAgain
      exact .callback hCallback hReact hAgain
  | opened =>
    cases h
    refine .quiet (by simp) ?_
    unfold Socket.sendConnect
    split <;> exact ⟨rfl, rfl, rfl, rfl, id⟩
  | disconnected =>
    cases h
    refine .quiet (by simp) ?_
    unfold Socket.onDisconnect
    split <;> exact ⟨rfl, rfl, rfl, rfl, id⟩
  | closed =>
    cases h
    refine .quiet (by simp) ?_
    unfold Socket.onClose
    split
    · exact ⟨rfl, rfl, rfl, rfl, fun h => by cases h⟩
    · exact ⟨rfl, rfl, rfl, rfl, id⟩

theorem Stepped.refines {P P' : Program σ δ A L} {a : Action δ} {calls : List (Call δ A L)}
    (h : Stepped react P a calls P') : Refines react P calls P' := by
  cases h with
  | @main r rest hMain =>
    obtain ⟨hCallbacks, hEmitted⟩ := P.socket.request_emits r
    refine ⟨[], [r], Call.emitted (P.socket.request r).2, ?_, hMain, ?_, .nil_right _⟩
    · rw [hCallbacks]
      rfl
    · rw [hEmitted]
      split
      · cases hOne : r.emission with
        | none => exact List.nil_sublist _
        | some msg =>
          rw [List.filterMap_cons_some hOne]
          exact List.Sublist.refl _
      · exact List.nil_sublist _
  | @callback p cb r s calls _ hReact hLeads =>
    refine ⟨[r.does], [], [], ?_, rfl, List.Sublist.refl _, ?_⟩
    · rw [hLeads.callbacks, Option.toList_some, reactions, hReact]
      rfl
    · rw [hLeads.emitted, List.flatten_singleton]
      exact .nil_left _
  | quiet _ hLeads => exact .quiet rfl rfl hLeads.callbacks hLeads.emitted

/-- A socket that is given up stays so. -/
theorem Stepped.client {P P' : Program σ δ A L} {a : Action δ} {calls : List (Call δ A L)}
    (h : Stepped react P a calls P') (hClient : P'.socket.client = true) :
    P.socket.client = true := by
  cases h with
  | @main r rest hMain => exact (P.socket.requests_client [r]).1.symm.trans hClient
  | callback _ _ hLeads => exact hLeads.client hClient
  | quiet _ hLeads => exact hLeads.client hClient

theorem run_client {P P' : Program σ δ A L} {as : List (Action δ)} {calls : List (Call δ A L)}
    (h : P.run react as = .ok (P', calls)) (hClient : P'.socket.client = true) :
    P.socket.client = true := by
  induction as generalizing P calls with
  | nil =>
    cases h
    exact hClient
  | cons a as ih =>
    obtain ⟨⟨P₁, c₁⟩, hFirst, h⟩ := Result.bind_eq_ok.1 h
    obtain ⟨⟨P₂, c₂⟩, hRest, h⟩ := Result.bind_eq_ok.1 h
    cases h
    exact (step_stepped hFirst).client (ih hRest)

/-- What every step keeps, with the callbacks so far, every run keeps. -/
theorem run_keeps {I : List (Callback δ A L) → Program σ δ A L → Prop}
    (hStep : ∀ cbs P a calls P', I cbs P → Stepped react P a calls P' →
      I (cbs ++ Call.callbacks calls) P')
    {cbs : List (Callback δ A L)} {P P' : Program σ δ A L} {as : List (Action δ)}
    {calls : List (Call δ A L)} (h : I cbs P) (hRun : P.run react as = .ok (P', calls)) :
    I (cbs ++ Call.callbacks calls) P' := by
  induction as generalizing cbs P calls with
  | nil =>
    cases hRun
    rwa [Call.callbacks, List.filterMap_nil, List.append_nil]
  | cons a as ih =>
    obtain ⟨⟨P₁, c₁⟩, hFirst, hRun⟩ := Result.bind_eq_ok.1 hRun
    obtain ⟨⟨P₂, c₂⟩, hRest, hRun⟩ := Result.bind_eq_ok.1 hRun
    cases hRun
    rw [Call.callbacks_append, ← List.append_assoc]
    exact ih (hStep _ _ _ _ _ h (step_stepped hFirst)) hRest

/-- In every interleaving of the main thread with the packets, the callbacks alone make the memory,
and the events that are handed over are those of the callbacks, in order, among some of those of the
main thread, in order. -/
theorem run_refines {P P' : Program σ δ A L} {as : List (Action δ)} {calls : List (Call δ A L)}
    (h : P.run react as = .ok (P', calls)) : Refines react P calls P' := by
  induction as generalizing P calls with
  | nil =>
    cases h
    exact .quiet rfl rfl rfl rfl
  | cons a as ih =>
    obtain ⟨⟨P₁, c₁⟩, hStep, h⟩ := Result.bind_eq_ok.1 h
    obtain ⟨⟨P₂, c₂⟩, hRun, h⟩ := Result.bind_eq_ok.1 h
    cases h
    exact (step_stepped hStep).refines.trans (ih hRun)

end Program

end Sio
