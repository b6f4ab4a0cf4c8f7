import TaquinSolver.Console.Replay

/-! Whole runs of the program, from its start: the main thread registers its listeners while packets
arrive, in any order. -/

namespace Console

open Java (Text)
open Sio (Message Request Callback Reaction Program Call Packet)

variable {δ A : Type}

/-! ### The listeners -/

theorem event_inj {func func' : Listener} (h : func.event = func'.event) : func = func' := by
  cases func <;> cases func' <;> first | rfl | exact absurd h (by decide)

/-- The requests of the main thread: to register a listener, or to emit what is no step. -/
def Plain (r : Request δ A Listener) : Prop :=
  (∃ func, r = bind func) ∨ ∃ name s, name ≠ stepEvent ∧ r = emitText name s

def bindsLogin : Request δ A Listener → Bool
  | .on _ .login => true
  | _ => false

/-- The identities of the logins that were heard. -/
def logins (cbs : List (Callback δ A Listener)) : List (Sio.Result Text) :=
  cbs.filterMap fun
    | .listener .login event => some (idOf event.messages)
    | _ => none

/-- The main thread has registered each listener or is going to, under its own name, and the login
only once: it is still to be registered, or it is registered, or it was heard. -/
structure Listening (sw : Bool) (cbs : List (Callback δ A Listener))
    (P : Program Globals δ A Listener) : Prop where
  nsp : P.socket.nsp = ['/']
  plain : ∀ r ∈ P.main, Plain r
  named : ∀ name func, P.socket.eventBinding.lookup name = some func → name = func.event
  bound : ∀ func, func ≠ .login →
    bind func ∈ P.main ∨ P.socket.eventBinding.lookup func.event = some func
  login : P.main.countP bindsLogin +
    (P.socket.eventBinding.lookup Listener.login.event).toList.length + (logins cbs).length ≤ 1
  identity : logins cbs = [] ∧ P.memory.id = [] ∨ logins cbs = [.ok P.memory.id]
  sw : P.memory.sw = sw

theorem logins_append (cbs cbs' : List (Callback δ A Listener)) :
    logins (cbs ++ cbs') = logins cbs ++ logins cbs' := List.filterMap_append

theorem logins_of_not {cb : Callback δ A Listener} (h : isLogin cb = false) : logins [cb] = [] := by
  cases cb with
  | listener func event =>
    cases func with
    | login => cases h
    | newMessage | start | getMatriz | solve | ackSolve | errorSolve => rfl
  | ack | error | opened => rfl

theorem plain_main (sw : Bool) (nickname : Text) (lines : List Text) (globalEventId : ℕ) :
    ∀ r ∈ (main (δ := δ) (A := A) sw nickname lines globalEventId).main, Plain r := by
  intro r hr
  rw [main, List.mem_append] at hr
  rcases hr with hr | hr
  · rw [loginServer, List.mem_cons, List.mem_cons] at hr
    rcases hr with rfl | rfl | hr
    · exact .inl ⟨_, rfl⟩
    · refine .inr ⟨_, _, ?_, rfl⟩
      decide
    · obtain ⟨func, -, rfl⟩ := List.mem_map.1 hr
      exact .inl ⟨func, rfl⟩
  · obtain ⟨line, -, rfl⟩ := List.mem_map.1 hr
    refine .inr ⟨_, _, ?_, rfl⟩
    decide

theorem listening_main (sw : Bool) (nickname : Text) (lines : List Text) (globalEventId : ℕ) :
    Listening sw [] (main (δ := δ) (A := A) sw nickname lines globalEventId) := by
  refine ⟨rfl, plain_main sw nickname lines globalEventId, by simp [main, Sio.Socket.new],
    fun func hFunc => .inl ?_, ?_, .inl ⟨rfl, rfl⟩, rfl⟩
  · rw [main, List.mem_append]
    left
    cases func with
    | login => exact absurd rfl hFunc
    | newMessage | start | getMatriz | solve | ackSolve | errorSolve => simp [loginServer]
  · have hChat : (chat (δ := δ) (A := A) lines).countP bindsLogin = 0 := by
      rw [List.countP_eq_zero]
      intro r hr
      obtain ⟨line, -, rfl⟩ := List.mem_map.1 hr
      simp [emitText, bindsLogin]
    have hLogin : (loginServer (δ := δ) (A := A) nickname).countP bindsLogin = 1 := rfl
    rw [main, List.countP_append, hChat, hLogin]
    exact Nat.le_refl 1

/-! ### One step -/

section Step

variable {sw : Bool} {cbs : List (Callback δ A Listener)} {P : Program Globals δ A Listener}

/-- The main thread registers a listener. -/
theorem Listening.registers (h : Listening sw cbs P) {func : Listener}
    {rest : List (Request δ A Listener)} (hMain : P.main = bind func :: rest)
    {s : Sio.Socket δ A Listener} (hNsp : s.nsp = P.socket.nsp)
    (hBinding : s.eventBinding = Sio.mapSet func.event func P.socket.eventBinding) :
    Listening sw cbs { P with socket := s, main := rest } := by
  have hLogin := h.login
  refine ⟨hNsp.trans h.nsp, fun r hr => h.plain r (by simp [hMain, hr]), fun name func' hName => ?_,
    fun func' hNe => ?_, ?_, h.identity, h.sw⟩
  · rw [hBinding, Sio.Socket.lookup_mapSet] at hName
    split at hName
    · rename_i hEq
      cases hName
      exact hEq
    · exact h.named name func' hName
  · rw [hBinding, Sio.Socket.lookup_mapSet]
    by_cases hEq : func' = func
    · right
      rw [hEq, if_pos rfl]
    · rw [if_neg fun hEvent => hEq (event_inj hEvent)]
      refine (h.bound func' hNe).imp_left fun hMem => ?_
      rw [hMain, List.mem_cons] at hMem
      refine hMem.resolve_left fun hSame => hEq ?_
      cases func' <;> cases func <;> first | rfl | cases hSame
  · rw [hMain] at hLogin
    rw [hBinding, Sio.Socket.lookup_mapSet]
    by_cases hEq : func = .login
    · subst hEq
      rw [List.countP_cons_of_pos (by rfl)] at hLogin
      rw [if_pos rfl, Option.toList_some, List.length_singleton]
      dsimp only
      omega
    · have hNot : ¬bindsLogin (Console.bind (δ := δ) (A := A) func) = true := by
        cases func <;> first | exact absurd rfl hEq | exact Bool.false_ne_true
      rw [List.countP_cons_of_neg hNot] at hLogin
      rw [if_neg fun hEvent => hEq (event_inj hEvent).symm]
      exact hLogin

/-- The main thread emits. -/
theorem Listening.emits (h : Listening sw cbs P) {name s : Text}
    {rest : List (Request δ A Listener)} (hMain : P.main = emitText name s :: rest)
    {t : Sio.Socket δ A Listener} (hNsp : t.nsp = P.socket.nsp)
    (hBinding : t.eventBinding = P.socket.eventBinding) :
    Listening sw cbs { P with socket := t, main := rest } := by
  refine ⟨hNsp.trans h.nsp, fun r hr => h.plain r (by simp [hMain, hr]),
    by rw [hBinding]; exact h.named, fun func hNe => ?_, ?_, h.identity, h.sw⟩
  · rw [hBinding]
    refine (h.bound func hNe).imp_left fun hMem => ?_
    rw [hMain, List.mem_cons] at hMem
    refine hMem.resolve_left fun hSame => ?_
    cases hSame
  · have hLogin := h.login
    have hNot : ¬bindsLogin (emitText (δ := δ) (A := A) name s) = true := Bool.false_ne_true
    rw [hMain, List.countP_cons_of_neg hNot] at hLogin
    rw [hBinding]
    exact hLogin

/-- A callback that is no login leaves the listeners and the identity alone. -/
theorem Listening.other (h : Listening sw cbs P) {cb : Callback δ A Listener} {g : Globals}
    (hCb : isLogin cb = false) (hId : g.id = P.memory.id) (hSw : g.sw = P.memory.sw)
    {t : Sio.Socket δ A Listener} (hNsp : t.nsp = P.socket.nsp)
    (hBinding : t.eventBinding = P.socket.eventBinding) :
    Listening sw (cbs ++ [cb]) { P with memory := g, socket := t } := by
  have hLogins : logins (cbs ++ [cb]) = logins cbs := by
    rw [logins_append, logins_of_not hCb, List.append_nil]
  refine ⟨hNsp.trans h.nsp, h.plain, by rw [hBinding]; exact h.named,
    by rw [hBinding]; exact h.bound, ?_, ?_, hSw.trans h.sw⟩
  · rw [hBinding, hLogins]
    exact h.login
  · rw [hLogins, hId]
    exact h.identity

/-- The login forgets its own listener. -/
theorem Listening.heard (h : Listening sw cbs P) {event : Sio.Event δ} {id : Text}
    {participants : ℤ} (hId : idOf event.messages = .ok id)
    (hHeard : P.socket.eventBinding.lookup event.name = some .login)
    {t : Sio.Socket δ A Listener} (hNsp : t.nsp = P.socket.nsp)
    (hBinding : t.eventBinding =
      P.socket.eventBinding.filter (·.1 ≠ Listener.login.event)) :
    Listening sw (cbs ++ [.listener .login event])
      { P with memory := { P.memory with id, participants }, socket := t } := by
  have hName := h.named _ _ hHeard
  have hLogin := h.login
  rw [← hName, hHeard, Option.toList_some, List.length_singleton] at hLogin
  have hNone : logins cbs = [] := List.length_eq_zero_iff.1 (by omega)
  have hLogins : logins (cbs ++ [.listener .login event]) = [.ok id] := by
    rw [logins_append, hNone, ← hId]
    rfl
  refine ⟨hNsp.trans h.nsp, h.plain, fun name func hFunc => ?_, fun func hNe => ?_, ?_,
    .inr hLogins, h.sw⟩
  · rw [hBinding, Sio.Socket.lookup_filter_ne] at hFunc
    split at hFunc
    · cases hFunc
    · exact h.named name func hFunc
  · rw [hBinding, Sio.Socket.lookup_filter_ne, if_neg fun hEq => hNe (event_inj hEq)]
    exact h.bound func hNe
  · rw [hBinding, Sio.Socket.lookup_filter_ne, if_pos rfl, hLogins, Option.toList_none,
      List.length_nil, List.length_singleton]
    dsimp only
    omega

theorem Listening.step (h : Listening sw cbs P) {P' : Program Globals δ A Listener}
    {a : Program.Action δ} {calls : List (Call δ A Listener)}
    (hStep : Program.Stepped react P a calls P') :
    Listening sw (cbs ++ Call.callbacks calls) P' := by
  cases hStep with
  | @main r rest hMain =>
    rw [(P.socket.request_emits r).1, List.append_nil]
    have hBinding := P.socket.request_binding r
    have hNsp : (P.socket.request r).1.nsp = P.socket.nsp := (P.socket.requests_client [r]).2
    rcases h.plain r (by simp [hMain]) with ⟨func, rfl⟩ | ⟨name, s, -, rfl⟩
    · exact h.registers hMain hNsp hBinding
    · exact h.emits hMain hNsp hBinding
  | @callback p cb r s calls hCallback hReact hLeads =>
    rw [hLeads.callbacks, Option.toList_some]
    have hBinding := hLeads.binding
    rw [Option.isSome_some, if_pos rfl] at hBinding
    have hPlays := plays_of_react hReact
    cases hPlays with
    | login hId => exact h.heard hId (Sio.Socket.lookup_of_callbackOf hCallback) hLeads.nsp hBinding
    | solve | ack | last =>
      apply h.other _ _ _ hLeads.nsp hBinding
      · rfl
      · rfl
      · rfl
    | other _ hNo _ _ hSame => exact h.other hNo rfl rfl hLeads.nsp (hBinding.trans (hSame _))
  | quiet _ hLeads =>
    rw [hLeads.callbacks, Option.toList_none, List.append_nil]
    have hBinding : _ = P.socket.eventBinding := hLeads.binding
    exact ⟨hLeads.nsp.trans h.nsp, h.plain, by rw [hBinding]; exact h.named,
      by rw [hBinding]; exact h.bound, by rw [hBinding]; exact h.login, h.identity, h.sw⟩

theorem Listening.run (h : Listening sw cbs P) {P' : Program Globals δ A Listener}
    {as : List (Program.Action δ)} {calls : List (Call δ A Listener)}
    (hRun : P.run react as = .ok (P', calls)) :
    Listening sw (cbs ++ Call.callbacks calls) P' :=
  Program.run_keeps (fun _ _ _ _ _ h hStep => h.step hStep) h hRun

end Step

/-! ### The identity -/

/-- In every run at most one login is heard, and the identity is the one that it brings. -/
theorem one_login {sw : Bool} {nickname : Text} {lines : List Text} {globalEventId : ℕ}
    {P : Program Globals δ A Listener} {as : List (Program.Action δ)}
    {calls : List (Call δ A Listener)}
    (hRun : (main sw nickname lines globalEventId).run react as = .ok (P, calls)) :
    logins (Call.callbacks calls) = [] ∧ P.memory.id = [] ∨
      logins (Call.callbacks calls) = [.ok P.memory.id] :=
  ((listening_main sw nickname lines globalEventId).run hRun).identity

/-- A packet with an event, which wants no acknowledgement. -/
def eventPacket (func : Listener) (data : List (Message Empty)) : Packet Empty :=
  ⟨Sio.FrameType.message, Sio.PacketType.event, ['/'], -1, .array (.string func.event :: data), 0,
    []⟩

/-- The main thread registers its listeners, the socket is connected, and the login brings the
identity `a`. -/
def opening : List (Program.Action Empty) :=
  List.replicate 8 .main ++ [.packet (.ofType Sio.PacketType.connect ['/'] .absent),
    .packet (eventPacket .login [.object [(keyId, .string ['a']),
      (['n', 'u', 'm', 'U', 's', 'e', 'r', 's'], .int 1)]])]

/-- The program after `opening`, and what its socket called. -/
def opened : Program Globals Empty Empty Listener × List (Call Empty Empty Listener) :=
  ((main true ['n'] [] 1).run react opening).toOption.getD (main true ['n'] [] 1, [])

theorem run_opening : (main true ['n'] [] 1).run react opening = .ok (opened.1, opened.2) := rfl

theorem one_login_opening :
    logins (Call.callbacks opened.2) = [] ∧ opened.1.memory.id = [] ∨
      logins (Call.callbacks opened.2) = [.ok opened.1.memory.id] :=
  one_login run_opening

/-! ### The steps -/

/-- The steps that are handed over to be sent. -/
def played (calls : List (Call δ A Listener)) : List Text := (Call.emitted calls).filterMap sentStep

theorem sentStep_plain {r : Request δ A Listener} (h : Plain r) : stepOf r = none := by
  rcases h with ⟨func, rfl⟩ | ⟨name, s, hName, rfl⟩
  · rfl
  · rw [stepOf, emitText, Request.emission, Option.bind_some, sentStep, if_neg hName]

/-- The steps of a run are those of its callbacks. -/
theorem played_eq {sw : Bool} {cbs : List (Callback δ A Listener)}
    {P P' : Program Globals δ A Listener} {as : List (Program.Action δ)}
    {calls : List (Call δ A Listener)} (h : Listening sw cbs P)
    (hRun : P.run react as = .ok (P', calls)) :
    ∃ outs, Program.reactions react P.memory (Call.callbacks calls) = .ok (P'.memory, outs) ∧
      played calls = stepsOf outs := by
  obtain ⟨outs, did, fromMain, hReactions, hMain, hSub, hMix⟩ := Program.run_refines hRun
  refine ⟨outs, hReactions, ?_⟩
  have hNone : fromMain.filterMap sentStep = [] := by
    have hDid : did.filterMap stepOf = [] := by
      rw [List.filterMap_eq_nil_iff]
      intro r hr
      exact sentStep_plain (h.plain r (by rw [hMain]; exact List.mem_append_left _ hr))
    have hSteps := hSub.filterMap sentStep
    rw [List.filterMap_filterMap] at hSteps
    exact List.sublist_nil.1 (hDid ▸ hSteps)
  have hAll := hMix.filterMap sentStep
  rw [hNone, List.filterMap_filterMap] at hAll
  exact hAll.eq_of_nil_left

/-- In every run of a program that is logged in, the steps after a `solve` for it are its game,
round by round, and only the number of acknowledgements matters. -/
theorem steps_played {sw : Bool} {nickname : Text} {lines : List Text} {globalEventId : ℕ}
    {P P' : Program Globals δ A Listener} {as₁ as₂ : List (Program.Action δ)}
    {calls₁ calls₂ : List (Call δ A Listener)} {cb : Callback δ A Listener}
    {cbs : List (Callback δ A Listener)}
    (hRun₁ : (main sw nickname lines globalEventId).run react as₁ = .ok (P, calls₁))
    (hLogin : logins (Call.callbacks calls₁) ≠ [])
    (hRun₂ : P.run react as₂ = .ok (P', calls₂)) (hCalls : Call.callbacks calls₂ = cb :: cbs)
    (hAsks : Asks P.memory.id cb) (hQuiet : ∀ cb ∈ cbs, ¬Asks P.memory.id cb) :
    played calls₂ = due sw 0 (cbs.countP isAck + 1) := by
  have hStart := (listening_main sw nickname lines globalEventId).run hRun₁
  rw [List.nil_append] at hStart
  have hEnd := hStart.run hRun₂
  have hLength : (logins (Call.callbacks calls₁)).length = 1 := by
    rcases hStart.identity with ⟨hNone, -⟩ | hOne
    · exact absurd hNone hLogin
    · rw [hOne, List.length_singleton]
  have hNoMore : logins (cb :: cbs) = [] := by
    have hCount := hEnd.login
    rw [logins_append, List.length_append, hCalls] at hCount
    exact List.length_eq_zero_iff.1 (by omega)
  have hNone : ∀ c ∈ cbs, isLogin c = false := by
    intro c hc
    have hAll := List.filterMap_eq_nil_iff.1 hNoMore c (by simp [hc])
    cases c with
    | listener func event =>
      cases func with
      | login => cases hAll
      | newMessage | start | getMatriz | solve | ackSolve | errorSolve => rfl
    | ack | error | opened => rfl
  obtain ⟨outs, hReactions, hPlayed⟩ := played_eq hStart hRun₂
  rw [hCalls] at hReactions
  have hSteps := (reactions_played hReactions hAsks fun c hc => ⟨hNone c hc, hQuiet c hc⟩).2
  rw [hPlayed, hSteps, hStart.sw]

/-- A `solve` for the identity `a`, four acknowledgements, and a `start` among them. -/
def playing : List (Program.Action Empty) :=
  [.packet (eventPacket .solve [.object [(keyId, .string ['a']),
      (keyMatriz, .string (matriz false))]]),
    .packet (eventPacket .ackSolve []), .packet (eventPacket .start []),
    .packet (eventPacket .ackSolve []), .packet (eventPacket .ackSolve []),
    .packet (eventPacket .ackSolve [])]

theorem steps_played_playing : ∃ (P : Program Globals Empty Empty Listener)
    (calls : List (Call Empty Empty Listener)), opened.1.run react playing = .ok (P, calls) ∧
      played calls = due true 0 5 := by
  have hRun : opened.1.run react playing = .ok (_, _) := rfl
  have hLogins : logins (Call.callbacks opened.2) = [.ok ['a']] := rfl
  have hQuiet : ∀ cb ∈ [Listener.ackSolve, .start, .ackSolve, .ackSolve, .ackSolve].map fun func =>
      (.listener func ⟨['/'], func.event, [], false⟩ : Callback Empty Empty Listener),
      ¬Asks opened.1.memory.id cb := by
    simp [Asks]
  exact ⟨_, _, hRun, steps_played run_opening (by simp [hLogins]) hRun rfl rfl hQuiet⟩

/-! ### The events -/

/-- The listeners that `bind_events` registers. -/
def served : List Listener := [.newMessage, .start, .getMatriz, .solve, .ackSolve, .errorSolve]

/-- The event that a packet brings, with its listener. -/
def arrived : Program.Action δ → Option (Listener × Sio.Event δ)
  | .packet p =>
    if p.nsp = ['/'] ∧ (p.type = Sio.PacketType.event ∨ p.type = Sio.PacketType.binaryEvent) then
      (Sio.Socket.eventOf p.message).toOption.join.bind fun event =>
        (served.find? fun func => func.event = event.1).map fun func =>
          (func, ⟨p.nsp, event.1, event.2, decide (0 ≤ p.packId)⟩)
    else none
  | _ => none

/-- The event that a callback is called for, logins aside. -/
def heardEvent : Callback δ A Listener → Option (Listener × Sio.Event δ)
  | .listener func event => if func = .login then none else some (func, event)
  | _ => none

theorem find_served (func : Listener) :
    (served.find? fun func' => func'.event = func.event) =
      if func = .login then none else some func := by
  cases func <;> decide

/-- When all the listeners are registered, an event leads to its listener, and no other packet
leads to one. -/
theorem heardEvent_callbackOf {sw : Bool} {cbs : List (Callback δ A Listener)}
    {P : Program Globals δ A Listener} (h : Listening sw cbs P)
    (hMain : ∀ func, bind func ∉ P.main) (hClient : P.socket.client = true) (p : Packet δ) :
    (P.socket.callbackOf p).bind heardEvent = arrived (.packet p) := by
  have hFound : ∀ name, ((P.socket.eventBinding.lookup name).bind fun func =>
      if func = .login then none else some func) = served.find? fun func => func.event = name := by
    intro name
    cases hLookup : P.socket.eventBinding.lookup name with
    | none =>
      symm
      rw [Option.bind_none, List.find?_eq_none]
      intro func hFunc hName
      rw [decide_eq_true_eq] at hName
      have hNe : func ≠ .login := by
        rintro rfl
        simp [served] at hFunc
      have hSome := (h.bound func hNe).resolve_left (hMain func)
      rw [hName, hLookup] at hSome
      cases hSome
    | some func => rw [h.named name func hLookup, find_served, Option.bind_some]
  rw [Sio.Socket.callbackOf, hClient, h.nsp]
  by_cases hNsp : p.nsp = ['/']
  · rw [if_neg (by simp [hNsp])]
    by_cases hEvent : p.type = Sio.PacketType.event ∨ p.type = Sio.PacketType.binaryEvent
    · rw [if_neg (by rcases hEvent with hType | hType <;> rw [hType] <;> decide), if_pos hEvent,
        arrived, if_pos ⟨hNsp, hEvent⟩, hNsp, Option.bind_assoc]
      congr 1
      funext event
      rw [← hFound]
      cases P.socket.eventBinding.lookup event.1 with
      | none => rfl
      | some func =>
        rw [Option.map_some, Option.bind_some, Option.bind_some, heardEvent]
        split <;> rfl
    · have hNone : arrived (.packet p) = none := by
        rw [arrived, if_neg]
        exact fun hBoth => hEvent hBoth.2
      rw [if_neg hEvent, hNone]
      split
      · split <;> rfl
      split
      · cases P.socket.acks.lookup (p.packId % 2 ^ 32).toNat <;> rfl
      split
      · cases P.socket.errorListener <;> rfl
      · rfl
  · have hNone : arrived (.packet p) = none := by
      rw [arrived, if_neg]
      exact fun hBoth => hNsp hBoth.1
    rw [hNone, if_pos (Or.inr hNsp)]
    rfl

theorem Listening.hears_step {sw : Bool} {cbs : List (Callback δ A Listener)}
    {P P' : Program Globals δ A Listener} {a : Program.Action δ} {calls : List (Call δ A Listener)}
    (h : Listening sw cbs P) (hMain : ∀ func, bind func ∉ P.main)
    (hStep : Program.Stepped react P a calls P') (hClient : P.socket.client = true) :
    (Call.callbacks calls).filterMap heardEvent = (arrived a).toList ∧
      ∀ func, bind func ∉ P'.main := by
  cases hStep with
  | @main r rest hFirst =>
    rw [(P.socket.request_emits r).1]
    refine ⟨rfl, fun func hFunc => hMain func ?_⟩
    rw [hFirst]
    exact List.mem_cons_of_mem r hFunc
  | @callback p cb r s calls hCallback _ hLeads =>
    rw [← heardEvent_callbackOf h hMain hClient p, hCallback, hLeads.callbacks]
    refine ⟨?_, hMain⟩
    rw [Option.toList_some, Option.bind_some, List.filterMap_cons]
    cases heardEvent cb <;> rfl
  | quiet hPacket hLeads =>
    rw [hLeads.callbacks]
    refine ⟨?_, hMain⟩
    cases a with
    | packet p =>
      rw [← heardEvent_callbackOf h hMain hClient p, hPacket p rfl]
      rfl
    | main | opened | disconnected | closed => rfl

theorem Listening.hears {sw : Bool} {cbs : List (Callback δ A Listener)}
    {P P' : Program Globals δ A Listener} {as : List (Program.Action δ)}
    {calls : List (Call δ A Listener)} (h : Listening sw cbs P) (hMain : ∀ func, bind func ∉ P.main)
    (hRun : P.run react as = .ok (P', calls)) (hOpen : P'.socket.client = true) :
    (Call.callbacks calls).filterMap heardEvent = as.filterMap arrived := by
  induction as generalizing cbs P calls with
  | nil =>
    cases hRun
    rfl
  | cons a as ih =>
    have hClient := Program.run_client hRun hOpen
    obtain ⟨⟨P₁, c₁⟩, hFirst, hRun⟩ := Sio.Result.bind_eq_ok.1 hRun
    obtain ⟨⟨P₂, c₂⟩, hRest, hRun⟩ := Sio.Result.bind_eq_ok.1 hRun
    cases hRun
    have hStep := Program.step_stepped hFirst
    obtain ⟨hHead, hMain₁⟩ := h.hears_step hMain hStep hClient
    rw [Call.callbacks_append, List.filterMap_append, hHead, ih (h.step hStep) hMain₁ hRest]
    cases hOne : arrived a with
    | none =>
      rw [List.filterMap_cons_none hOne]
      rfl
    | some event =>
      rw [List.filterMap_cons_some hOne]
      rfl

/-- Once the main thread has registered its listeners, every event that arrives is heard, in order
and as it was sent, until the socket is closed. -/
theorem serving_hears {sw : Bool} {nickname : Text} {lines : List Text} {globalEventId : ℕ}
    {P P' : Program Globals δ A Listener} {as₁ as₂ : List (Program.Action δ)}
    {calls₁ calls₂ : List (Call δ A Listener)}
    (hRun₁ : (main sw nickname lines globalEventId).run react as₁ = .ok (P, calls₁))
    (hMain : ∀ func, bind func ∉ P.main) (hRun₂ : P.run react as₂ = .ok (P', calls₂))
    (hOpen : P'.socket.client = true) :
    (Call.callbacks calls₂).filterMap heardEvent = as₂.filterMap arrived :=
  ((listening_main sw nickname lines globalEventId).run hRun₁).hears hMain hRun₂ hOpen

theorem serving_hears_playing : ∃ (P : Program Globals Empty Empty Listener)
    (calls : List (Call Empty Empty Listener)), opened.1.run react playing = .ok (P, calls) ∧
      (Call.callbacks calls).filterMap heardEvent = playing.filterMap arrived := by
  have hRun : opened.1.run react playing = .ok (_, _) := rfl
  have hMain : opened.1.main = [] := rfl
  refine ⟨_, _, hRun, serving_hears run_opening (fun func => ?_) hRun rfl⟩
  rw [hMain]
  exact List.not_mem_nil

end Console
