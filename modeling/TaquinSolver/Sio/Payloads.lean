import TaquinSolver.Sio.Reconnect
import TaquinSolver.Sio.Stream

/-! The payloads that a client sends: which of those that are handed over reach the connection, and
in which order, down to the packets that the peer decodes. -/

namespace Sio

open Concurrent
open Java (Text)

def Handler.payload : Handler → Option Payload
  | .sendImpl payload => some payload
  | _ => none

def Effect.payload : Effect → Option Payload
  | .sent payload => some payload
  | _ => none

namespace Action

/-- What the thread of the user hands over, and what the thread of the network does. -/
def posted : Action → Option Payload
  | .send payload => some payload
  | _ => none

def here : Action → Option Payload
  | .sendHere payload => some payload
  | .ping => some .ping
  | _ => none

def isOpened : Action → Bool
  | .opened => true
  | _ => false

end Action

/-! ### Connections that stay open or shut -/

namespace Connection

theorem sendCloseFrame_opened {k : Connection} {code : Nat} {answered : Option Nat}
    (h : (k.sendCloseFrame code answered).state = .opened) : k.state = .opened := by
  unfold sendCloseFrame at h
  dsimp only at h
  generalize sentCode code answered = code at h
  split at h
  · exact h
  · cases h

theorem close_opened {k : Connection} {code : Nat} (h : (k.close code).state = .opened) :
    k.state = .opened := by
  by_contra hState
  exact hState (close_of_ne hState code ▸ h)

/-- A code that can be sent closes the connection. -/
theorem close_normal (k : Connection) : (k.close CloseStatus.normal).state ≠ .opened := by
  unfold close
  split
  · exact (by decide : SessionState.closing ≠ .opened)
  · assumption

/-- A connection that is not open does not open again. -/
theorem Alters.opened {k k' : Connection} {i : Nat} {a : Action} (h : k.Alters i a k')
    (hState : k'.state = .opened) : k.state = .opened := by
  cases h with
  | closeFrame payload =>
    unfold Connection.closeFrame at hState
    split at hState
    · exact hState
    · split at hState
      · exact sendCloseFrame_opened hState
      · split at hState
        · split at hState
          · assumption
          · exact hState
        · exact sendCloseFrame_opened hState
  | unreadable code =>
    unfold Connection.unreadable at hState
    split at hState
    · exact close_opened hState
    · cases hState
  | terminated => cases hState

end Connection

namespace Client

variable {valid : String → Bool} {c c' : Client} {a : Action}

/-- The payloads that wait for the thread of the network. -/
def pending (c : Client) : List Payload := c.handlers.filterMap Handler.payload

def sent (c : Client) : List Payload := c.effects.filterMap Effect.payload

/-- The connection is open, and neither side closes it. -/
structure Open (c : Client) : Prop where
  state : c.conState = .opened
  connections : ∀ k ∈ c.connections, k.state = .opened

theorem Open.con {p : Phase} (hAt : c.At p) (h : Open c) : c.con = true := by
  obtain rfl := hAt.connected_of_opened h.state
  exact Bool.toNat_eq_one.1 hAt.con

theorem put_open {p : Phase} (hAt : c.At p) (h : Open c) (payload : Payload) :
    c.put payload = if payload.isFramed then c.emit [.sent payload] else c := by
  obtain rfl := hAt.connected_of_opened h.state
  unfold put
  cases hList : c.connections with
  | nil =>
    have hLength := hAt.connections
    rw [hList] at hLength
    cases hLength
  | cons k ks =>
    have hk : k.state = .opened := h.connections k (by rw [hList]; exact List.mem_cons_self)
    simp [h.con hAt, Connection.takes, hk]

theorem sendImpl_open {p : Phase} (hAt : c.At p) (h : Open c) (payload : Payload) :
    c.sendImpl payload = if payload.isFramed then c.emit [.sent payload] else c := by
  rw [sendImpl, if_pos h.state, put_open hAt h]

theorem ping_open {p : Phase} (hAt : c.At p) (h : Open c) :
    c.ping = c.emit [.sent .ping] := by
  rw [ping, if_pos (h.con hAt), put_open hAt h, if_pos (by decide)]

theorem framed_sent (c : Client) (payload : Payload) :
    (if payload.isFramed then c.emit [.sent payload] else c).sent =
      c.sent ++ [payload].filter Payload.isFramed := by
  cases hFramed : payload.isFramed <;> simp [Client.sent, emit, Effect.payload, hFramed]

theorem framed_pending (c : Client) (payload : Payload) :
    (if payload.isFramed then c.emit [.sent payload] else c).pending = c.pending := by
  split <;> rfl

/-- `close_impl` closes the connection opened last, or no connection. -/
theorem closeImpl_connections (c : Client) (code : Nat) :
    (c.closeImpl code).connections = c.connections ∨ ∃ k ks, c.connections = k :: ks ∧
      (c.closeImpl code).connections = k.close code :: ks := by
  unfold closeImpl
  dsimp only
  split
  · cases c.connections with
    | nil => exact .inl rfl
    | cons k ks => exact .inr ⟨k, ks, rfl, rfl⟩
  · exact .inl rfl

/-- A connection that a call of `close` leaves open was open before. -/
theorem Open.of_closeImpl {code : Nat} (h : Open (c.closeImpl code)) : Open c := by
  refine ⟨h.state, ?_⟩
  have hAll := h.connections
  rcases c.closeImpl_connections code with hSame | ⟨k, ks, hList, hClosed⟩
  · rw [← hSame]
    exact hAll
  · rw [hClosed] at hAll
    rw [hList]
    rintro k' (_ | ⟨_, hk⟩)
    · exact Connection.close_opened (hAll _ List.mem_cons_self)
    · exact hAll k' (List.mem_cons_of_mem _ hk)

/-- What a step does with the payloads: those posted stand behind the others, and of what is handed
over the first ones are sent, with those of the thread of the network in between.  A text that is
not in UTF-8 is dropped. -/
def Passes (c c' : Client) (posted here : List Payload) : Prop :=
  ∃ done sent, c.pending ++ posted = done ++ c'.pending ∧ c'.sent = c.sent ++ sent ∧
    Interleave (done.filter Payload.isFramed) (here.filter Payload.isFramed) sent

theorem passes_same (hPending : c'.pending = c.pending) (hSent : c'.sent = c.sent) :
    Passes c c' [] [] :=
  ⟨[], [], by rw [List.append_nil, hPending]; rfl, by rw [hSent, List.append_nil], .nil⟩

theorem Passes.trans {m : Client} {posted here posted' here' : List Payload}
    (h : Passes c m posted here) (h' : Passes m c' posted' here') :
    Passes c c' (posted ++ posted') (here ++ here') := by
  obtain ⟨done, sent, hPending, hSent, hInterleave⟩ := h
  obtain ⟨done', sent', hPending', hSent', hInterleave'⟩ := h'
  refine ⟨done ++ done', sent ++ sent', ?_, ?_, ?_⟩
  · rw [← List.append_assoc, hPending, List.append_assoc, hPending', List.append_assoc]
  · rw [hSent', hSent, List.append_assoc]
  · rw [List.filter_append, List.filter_append]
    exact hInterleave.append hInterleave'

theorem pending_cons {hd : Handler} {hs : List Handler} (hHandlers : c.handlers = hd :: hs) :
    c.pending = hd.payload.toList ++ hs.filterMap Handler.payload := by
  rw [pending, hHandlers, List.filterMap_cons]
  cases hd.payload <;> rfl

theorem Open.step {p : Phase} (hAt : c.At p) (hMoves : Moves valid c a c') (h : Open c')
    (hOpened : a.isOpened = false) :
    Open c ∧ Passes c c' a.posted.toList a.here.toList := by
  cases hMoves with
  | ignored | joinedClose | handshake | runEnds =>
    exact ⟨⟨h.state, h.connections⟩, passes_same rfl rfl⟩
  | sets hAction =>
    rcases hAction with ⟨n, rfl⟩ | ⟨n, rfl⟩ | ⟨n, rfl⟩ <;>
      exact ⟨⟨h.state, h.connections⟩, passes_same rfl rfl⟩
  | joins _ hState =>
    have hOpen : c.conState = .opened := h.state
    rcases hState with hState | hState <;> rw [hState] at hOpen <;> cases hOpen
  | starts | joinedConnect | closes | reattempts | rerejects => cases h.state
  | sends payload =>
    refine ⟨⟨h.state, h.connections⟩, [], [], ?_, (List.append_nil _).symm, .nil⟩
    simp [pending, Handler.payload, Action.posted]
  | attempts hHandlers | rejects hHandlers | late hHandlers =>
    refine ⟨⟨h.state, h.connections⟩, passes_same ?_ ?_⟩
    · rw [pending_cons hHandlers]
      rfl
    · simp [Client.sent, Effect.payload]
  | closeHandler hHandlers =>
    have hOpen := h.of_closeImpl
    refine ⟨⟨hOpen.state, hOpen.connections⟩, passes_same ?_ rfl⟩
    rw [pending_cons hHandlers]
    rfl
  | @sendHandler payload hs hHandlers =>
    have hOpen : Open { c with handlers := hs } := by
      rcases sendImpl_cases { c with handlers := hs } payload with hSent | hSent <;>
        rw [hSent] at h <;> exact ⟨h.state, h.connections⟩
    rw [sendImpl_open (hAt.take hHandlers rfl rfl) hOpen]
    refine ⟨⟨hOpen.state, hOpen.connections⟩, [payload], _, ?_, framed_sent _ payload,
      Interleave.nil_right _⟩
    rw [framed_pending, pending_cons hHandlers]
    exact List.append_nil _
  | sendHere payload =>
    have hOpen : Open c := by
      rcases c.sendImpl_cases payload with hSent | hSent <;> rw [hSent] at h <;>
        exact ⟨h.state, h.connections⟩
    rw [sendImpl_open hAt hOpen]
    refine ⟨hOpen, [], _, ?_, framed_sent c payload, Interleave.nil_left _⟩
    rw [framed_pending]
    exact List.append_nil _
  | pings =>
    have hOpen : Open c := by
      rcases c.ping_cases with hSent | hSent <;> rw [hSent] at h <;>
        exact ⟨h.state, h.connections⟩
    rw [ping_open hAt hOpen]
    refine ⟨hOpen, [], [.ping], List.append_nil _, ?_, .right .nil⟩
    simp [Client.sent, emit, Effect.payload]
  | expired =>
    refine ⟨⟨h.state, h.connections⟩, passes_same ?_ rfl⟩
    simp [pending, Handler.payload]
  | opened => cases hOpened
  | failed =>
    obtain ⟨timer, es, hShape⟩ := reconnect_shape _ _
    rw [hShape] at h
    cases h.state
  | ended =>
    obtain ⟨timer, es, hShape⟩ := onClose_shape _ _
    rw [hShape] at h
    cases h.state
  | @alters _ i k k' hk hAlters =>
    obtain ⟨hi, hAt⟩ := List.getElem?_eq_some_iff.1 hk
    have hOpen : Open c := by
      refine ⟨h.state, fun k₀ hk₀ => ?_⟩
      obtain ⟨j, hj, rfl⟩ := List.mem_iff_getElem.1 hk₀
      by_cases hij : i = j
      · subst hij
        rw [hAt]
        exact hAlters.opened (h.connections k' (List.mem_set hi _))
      · refine h.connections _ (List.mem_iff_getElem.2 ⟨j, by simpa using hj, ?_⟩)
        exact List.getElem_set_ne hij _
    refine ⟨hOpen, ?_⟩
    cases hAlters <;> exact passes_same rfl rfl
  | aborts hAction =>
    rcases hAction with rfl | ⟨rfl | rfl, -⟩ <;> exact ⟨h.of_closeImpl, passes_same rfl rfl⟩

theorem Open.run {as : List Action} (hRun : run valid c as = some c') {p : Phase}
    (hAt : c.At p) (hOpened : ∀ a ∈ as, a.isOpened = false) (h : Open c') :
    Open c ∧ Passes c c' (as.filterMap Action.posted) (as.filterMap Action.here) := by
  induction as generalizing c p with
  | nil =>
    cases hRun
    exact ⟨h, passes_same rfl rfl⟩
  | cons a as ih =>
    obtain ⟨m, hStep, hRest⟩ := run_cons.1 hRun
    obtain ⟨p', -, -, -, hAt'⟩ := follows_of_step hAt hStep
    obtain ⟨hOpen, hPasses⟩ := ih hRest hAt' fun b hb => hOpened b (List.mem_cons_of_mem _ hb)
    obtain ⟨hFirst, hPassesFirst⟩ :=
      hOpen.step hAt (step_moves hStep) (hOpened a List.mem_cons_self)
    refine ⟨hFirst, ?_⟩
    have hAll := hPassesFirst.trans hPasses
    rw [List.filterMap_cons, List.filterMap_cons]
    cases hPosted : a.posted <;> cases hHere : a.here <;> simpa [hPosted, hHere] using hAll

/-- As long as the same connection is open, each payload that is handed over is sent once, unless it
is a text that is not in UTF-8: the payloads posted by the thread of the user in their order, up to
those that still wait, and among them those of the thread of the network in their order. -/
theorem sent_interleaved {r : Reconnection} {as₀ as : List Action}
    (hBefore : run valid (create r) as₀ = some c) (hRun : run valid c as = some c')
    (hOpened : ∀ a ∈ as, a.isOpened = false) (hOpen : Open c') :
    ∃ done sent, c.pending ++ as.filterMap Action.posted = done ++ c'.pending ∧
      c'.sent = c.sent ++ sent ∧
      Interleave (done.filter Payload.isFramed)
        ((as.filterMap Action.here).filter Payload.isFramed) sent := by
  obtain ⟨p, hAt, -⟩ := run_phase hBefore
  exact (Open.run hRun hAt hOpened hOpen).2

/-- A text of the packet `42` with a chat line. -/
def chatLine (line : Text) : Payload := ⟨.text, '4' :: '2' :: '[' :: '"' :: line ++ ['"', ']']⟩

/-- A ping is sent before a payload that was posted earlier, and a line in Latin-1 is dropped. -/
theorem sent_interleaved_overtaking : ∃ c c' : Client,
    run (fun _ => true) (create .initial)
      [.connect "ws://localhost:8080" "", .handler, .opened] = some c ∧
    run (fun _ => true) c [.send (chatLine ['h']), .send (chatLine [Char.ofNat 0xE9]), .ping,
      .handler, .handler] = some c' ∧
    ∃ done sent, c.pending ++ [chatLine ['h'], chatLine [Char.ofNat 0xE9]] = done ++ c'.pending ∧
      c'.sent = c.sent ++ sent ∧
      Interleave (done.filter Payload.isFramed) ([Payload.ping].filter Payload.isFramed) sent := by
  have hRun : run (fun _ => true) (create .initial)
      [.connect "ws://localhost:8080" "", .handler, .opened] = some _ := rfl
  have hOpened : ∀ a ∈ [(.send (chatLine ['h']) : Action), .send (chatLine [Char.ofNat 0xE9]),
      .ping, .handler, .handler], a.isOpened = false := by simp [Action.isOpened]
  refine ⟨_, _, hRun, rfl, sent_interleaved hRun rfl hOpened ⟨rfl, ?_⟩⟩
  rintro k (_ | ⟨_, hk⟩)
  · rfl
  · cases hk

/-! ### Closing -/

/-- No connection takes a payload any more. -/
def Shut (c : Client) : Prop := ∀ k ∈ c.connections, k.state ≠ .opened

theorem Shut.put (h : Shut c) (payload : Payload) : c.put payload = c := by
  unfold Client.put
  cases hList : c.connections with
  | nil => rfl
  | cons k ks =>
    have hk := h k (by rw [hList]; exact List.mem_cons_self)
    simp [Connection.takes, hk]

theorem Shut.sendImpl (h : Shut c) (payload : Payload) : c.sendImpl payload = c := by
  unfold Client.sendImpl
  split
  · exact h.put payload
  · rfl

theorem Shut.ping (h : Shut c) : c.ping = c := by
  unfold Client.ping
  split
  · exact h.put .ping
  · rfl

theorem Shut.closeImpl (h : Shut c) (code : Nat) : Shut (c.closeImpl code) := by
  unfold Shut at h ⊢
  rcases c.closeImpl_connections code with hSame | ⟨k, ks, hList, hClosed⟩
  · rw [hSame]
    exact h
  · rw [hList] at h
    rw [hClosed, Connection.close_of_ne (h k List.mem_cons_self)]
    exact h

/-- The posted `close_impl` shuts the one connection that there can be. -/
theorem shut_closeImpl {p : Phase} (hAt : c.At p) : Shut (c.closeImpl CloseStatus.normal) := by
  intro k hk
  change k ∈ if c.con then _ else _ at hk
  have hCon := hAt.con
  rw [← hAt.connections] at hCon
  rcases hList : c.connections with _ | ⟨k', _ | ⟨k'', ks⟩⟩
  · simp [hList] at hk
  · rw [hList] at hCon hk
    rw [if_pos (Bool.toNat_eq_one.1 hCon), List.modifyHead_cons, List.mem_singleton] at hk
    rw [hk]
    exact k'.close_normal
  · have hSingle := hAt.single
    rw [hList, List.length_cons, List.length_cons] at hSingle
    omega

theorem sent_append (c : Client) (es : List Effect) (h : ∀ e ∈ es, e.payload = none) :
    ({ c with effects := c.effects ++ es } : Client).sent = c.sent := by
  have hNil : es.filterMap Effect.payload = [] := List.filterMap_eq_nil_iff.2 h
  rw [Client.sent, List.filterMap_append, hNil, List.append_nil]
  rfl

theorem reconnect_sent (c : Client) {last : Effect} (h : last.payload = none) :
    (c.reconnect last).sent = c.sent := by
  unfold reconnect
  split
  · exact sent_append c _ (by simp [Effect.payload])
  · exact sent_append c _ (by simp [h])

theorem onClose_sent (c : Client) (code : Nat) : (c.onClose code).sent = c.sent := by
  have hLost := sent_append c [.socketsDisconnect] (by simp [Effect.payload])
  unfold onClose
  dsimp only
  split
  · exact (sent_append _ _ (by simp [Effect.payload])).trans hLost
  · exact (reconnect_sent _ rfl).trans hLost

theorem sent_ping (c : Client) : (c.emit [.sent .ping]).sent = c.sent ++ [.ping] := by
  simp [Client.sent, emit, Effect.payload]

/-- Until it is opened, a client sends nothing but pings. -/
theorem Moves.unopened (h : Moves valid c a c') (hState : c.conState ≠ .opened)
    (hOpened : a.isOpened = false) :
    c'.conState ≠ .opened ∧ ∃ n, c'.sent = c.sent ++ List.replicate n .ping := by
  have hNone : ∀ {m : Client}, m.sent = c.sent → ∃ n, m.sent = c.sent ++ List.replicate n .ping :=
    fun hSent => ⟨0, by rw [hSent, List.replicate_zero, List.append_nil]⟩
  cases h with
  | ignored | joins | sends | sets | joinedClose | late | expired | alters | handshake
  | runEnds | closeHandler | aborts => exact ⟨hState, hNone rfl⟩
  | starts | joinedConnect | closes =>
    exact ⟨(fun hOpen => by cases hOpen), hNone (sent_append c _ (by simp [Effect.payload]))⟩
  | attempts | rejects => exact ⟨hState, hNone (sent_append c _ (by simp [Effect.payload]))⟩
  | reattempts | rerejects =>
    refine ⟨(fun hOpen => by cases hOpen), hNone ?_⟩
    rw [List.append_assoc]
    exact sent_append c _ (by simp [Effect.payload])
  | @sendHandler payload hs =>
    rw [sendImpl_of_ne (c := { c with handlers := hs }) hState payload]
    exact ⟨hState, hNone rfl⟩
  | sendHere payload =>
    rw [sendImpl_of_ne hState payload]
    exact ⟨hState, hNone rfl⟩
  | pings =>
    rcases c.ping_cases with hSent | hSent <;> rw [hSent]
    · exact ⟨hState, hNone rfl⟩
    · exact ⟨hState, 1, c.sent_ping⟩
  | opened => cases hOpened
  | failed =>
    refine ⟨?_, hNone ((reconnect_sent _ rfl).trans (sent_append c _ (by simp [Effect.payload])))⟩
    obtain ⟨timer, es, hShape⟩ := reconnect_shape _ _
    rw [hShape]
    exact fun hOpen => by cases hOpen
  | ended =>
    refine ⟨?_, hNone (onClose_sent _ _)⟩
    obtain ⟨timer, es, hShape⟩ := onClose_shape _ _
    rw [hShape]
    exact fun hOpen => by cases hOpen

/-- Once no connection takes a payload, nothing is sent until one is opened. -/
theorem Shut.step (h : Shut c) (hMoves : Moves valid c a c') (hOpened : a.isOpened = false) :
    Shut c' ∧ c'.sent = c.sent := by
  cases hMoves with
  | ignored | joins | sends | sets | joinedClose | late | expired | handshake | runEnds =>
    exact ⟨h, rfl⟩
  | starts | joinedConnect | closes | attempts | rejects =>
    exact ⟨h, sent_append c _ (by simp [Effect.payload])⟩
  | reattempts | rerejects =>
    refine ⟨h, ?_⟩
    rw [List.append_assoc]
    exact sent_append c _ (by simp [Effect.payload])
  | @closeHandler code hs =>
    have hTaken : Shut { c with handlers := hs } := h
    exact ⟨hTaken.closeImpl code, rfl⟩
  | aborts => exact ⟨h.closeImpl _, rfl⟩
  | @sendHandler payload hs =>
    have hTaken : Shut { c with handlers := hs } := h
    rw [hTaken.sendImpl]
    exact ⟨h, rfl⟩
  | sendHere payload =>
    rw [h.sendImpl]
    exact ⟨h, rfl⟩
  | pings =>
    rw [h.ping]
    exact ⟨h, rfl⟩
  | opened => cases hOpened
  | failed =>
    refine ⟨?_, (reconnect_sent _ rfl).trans (sent_append c _ (by simp [Effect.payload]))⟩
    obtain ⟨timer, es, hShape⟩ := reconnect_shape _ _
    rw [hShape]
    exact h
  | ended =>
    refine ⟨?_, onClose_sent _ _⟩
    obtain ⟨timer, es, hShape⟩ := onClose_shape _ _
    rw [hShape]
    exact fun k hk => h k (List.mem_of_mem_eraseIdx hk)
  | alters hk hAlters =>
    refine ⟨fun k hMem hState => ?_, rfl⟩
    rcases List.mem_or_eq_of_mem_set hMem with hMem | rfl
    · exact h k hMem hState
    · exact h _ (List.mem_of_getElem? hk) (hAlters.opened hState)

/-- A `close_impl` that is posted stays posted until it shuts the connection. -/
theorem close_posted {p : Phase} (hAt : c.At p) (hMoves : Moves valid c a c')
    (hPosted : .closeImpl CloseStatus.normal ∈ c.handlers) :
    .closeImpl CloseStatus.normal ∈ c'.handlers ∨ Shut c' := by
  have hTake : ∀ {h : Handler} {hs : List Handler}, c.handlers = h :: hs →
      h ≠ .closeImpl CloseStatus.normal → .closeImpl CloseStatus.normal ∈ hs := by
    intro h hs hHandlers hOther
    rw [hHandlers] at hPosted
    exact (List.mem_cons.1 hPosted).resolve_left hOther.symm
  cases hMoves with
  | ignored | joins | sets | joinedClose | handshake | runEnds | opened | alters | aborts =>
    exact .inl hPosted
  | starts | joinedConnect | sends | expired => exact .inl (List.mem_append_left _ hPosted)
  | closes =>
    exact .inl (List.mem_append_left _ (List.mem_append_left _ hPosted))
  | attempts hHandlers | rejects hHandlers | reattempts hHandlers | rerejects hHandlers
  | late hHandlers => exact .inl (hTake hHandlers (by simp))
  | @closeHandler code hs hHandlers =>
    by_cases hCode : code = CloseStatus.normal
    · rw [hCode]
      exact .inr (shut_closeImpl (hAt.take hHandlers rfl rfl))
    · exact .inl (hTake hHandlers (by simpa using hCode))
  | @sendHandler payload hs hHandlers =>
    have hMem := hTake hHandlers (by simp)
    rcases sendImpl_cases { c with handlers := hs } payload with hSent | hSent <;> rw [hSent] <;>
      exact .inl hMem
  | sendHere payload =>
    rcases c.sendImpl_cases payload with hSent | hSent <;> rw [hSent] <;> exact .inl hPosted
  | pings => rcases c.ping_cases with hSent | hSent <;> rw [hSent] <;> exact .inl hPosted
  | failed =>
    obtain ⟨timer, es, hShape⟩ := reconnect_shape _ _
    rw [hShape]
    exact .inl hPosted
  | ended =>
    obtain ⟨timer, es, hShape⟩ := onClose_shape _ _
    rw [hShape]
    exact .inl hPosted

/-- The user has closed the client, and nothing but pings was sent since then. -/
structure Closing (before : List Payload) (c : Client) : Prop where
  phase : ∃ p, c.At p
  state : c.conState ≠ .opened
  posted : .closeImpl CloseStatus.normal ∈ c.handlers ∨ Shut c
  sent : ∃ n, c.sent = before ++ List.replicate n .ping

theorem Closing.step {before : List Payload} (h : Closing before c)
    (hStep : Client.step valid c a = some c') (hOpened : a.isOpened = false) :
    Closing before c' := by
  obtain ⟨⟨p, hAt⟩, hState, hPosted, n, hSent⟩ := h
  obtain ⟨p', -, -, -, hAt'⟩ := follows_of_step hAt hStep
  have hMoves := step_moves hStep
  obtain ⟨hState', n', hSent'⟩ := hMoves.unopened hState hOpened
  refine ⟨⟨p', hAt'⟩, hState', ?_, n + n', ?_⟩
  · rcases hPosted with hPosted | hShut
    · exact close_posted hAt hMoves hPosted
    · exact .inr (hShut.step hMoves hOpened).1
  · rw [hSent', hSent, List.append_assoc, List.replicate_append_replicate]

theorem step_closes {payloads : List Payload} (ha : a = .close payloads ∨ a = .syncClose payloads)
    (hStep : Client.step valid c a = some c') :
    ∃ joining, c' = { c.close payloads with joining := joining } := by
  rcases ha with rfl | rfl
  · simp only [Client.step] at hStep
    split at hStep <;> cases hStep
    exact ⟨_, rfl⟩
  · simp only [Client.step] at hStep
    split at hStep <;> cases hStep
    unfold syncClose
    dsimp only
    split <;> exact ⟨_, rfl⟩

theorem closing_close {p : Phase} (hAt : c.At p) {payloads : List Payload}
    (ha : a = .close payloads ∨ a = .syncClose payloads)
    (hStep : Client.step valid c a = some c') : Closing c.sent c' := by
  obtain ⟨joining, rfl⟩ := step_closes ha hStep
  refine ⟨⟨p, { hAt.close payloads with }⟩, ?_, .inl ?_, 0, ?_⟩
  · rintro ⟨⟩
  · exact List.mem_append_right _ (List.mem_singleton_self _)
  · rw [List.replicate_zero, List.append_nil]
    exact sent_append c _ (by simp [Effect.payload])

theorem Closing.run {before : List Payload} {as : List Action} (h : Closing before c)
    (hOpened : ∀ b ∈ as, b.isOpened = false) (hRun : Client.run valid c as = some c') :
    Closing before c' :=
  run_invariant_of_mem (P := Closing before) (C := fun b => b.isOpened = false)
    (fun _ _ _ h hb hStep => h.step hStep hb) hOpened h hRun

theorem Shut.run {as : List Action} (h : Shut c) (hOpened : ∀ b ∈ as, b.isOpened = false)
    (hRun : Client.run valid c as = some c') : c'.sent = c.sent := by
  refine (run_invariant_of_mem (P := fun m => Shut m ∧ m.sent = c.sent) ?_ hOpened ⟨h, rfl⟩ hRun).2
  rintro m b m' ⟨hShut, hSent⟩ hb hStep
  obtain ⟨hShut', hSent'⟩ := hShut.step (step_moves hStep) hb
  exact ⟨hShut', hSent'.trans hSent⟩

/-- After a call of `close`, nothing but pings is sent until a connection is opened, and nothing at
all once the posted `close_impl` has run.  So what the sockets hand over in their own `close`, to
tell the server that they disconnect, is dropped until then. -/
theorem nothing_sent_closing {r : Reconnection} {as₀ as as' : List Action}
    {payloads : List Payload} {m : Client} (hBefore : run valid (create r) as₀ = some c)
    (ha : a = .close payloads ∨ a = .syncClose payloads) (hRun : run valid c (a :: as) = some m)
    (hAfter : run valid m as' = some c') (hOpened : ∀ b ∈ as ++ as', b.isOpened = false) :
    (∃ n, c'.sent = c.sent ++ List.replicate n .ping) ∧
      (.closeImpl CloseStatus.normal ∉ m.handlers → c'.sent = m.sent) := by
  obtain ⟨p, hAt, -⟩ := run_phase hBefore
  obtain ⟨first, hClose, hRest⟩ := run_cons.1 hRun
  have hClosing : Closing c.sent m := (closing_close hAt ha hClose).run
    (fun b hb => hOpened b (List.mem_append_left _ hb)) hRest
  have hOpened' : ∀ b ∈ as', b.isOpened = false := fun b hb =>
    hOpened b (List.mem_append_right _ hb)
  exact ⟨(hClosing.run hOpened' hAfter).sent, fun hRan =>
    (hClosing.posted.resolve_left hRan).run hOpened' hAfter⟩

/-- A connected client is closed: a ping is sent before the posted `close_impl`, and none after. -/
theorem nothing_sent_closing_connected : ∃ c m c' : Client,
    run (fun _ => true) (create .initial)
      [.connect "ws://localhost:8080" "", .handler, .opened] = some c ∧
    run (fun _ => true) c (.close [chatLine ['h']] :: [.ping, .handler, .handler]) = some m ∧
    run (fun _ => true) m [.ping, .terminated 0 false, .ended 0] = some c' ∧
    (∃ n, c'.sent = c.sent ++ List.replicate n .ping) ∧
      (.closeImpl CloseStatus.normal ∉ m.handlers → c'.sent = m.sent) := by
  have hRun : run (fun _ => true) (create .initial)
      [.connect "ws://localhost:8080" "", .handler, .opened] = some _ := rfl
  have hOpened : ∀ b ∈ [.ping, .handler, .handler] ++ [.ping, .terminated 0 false, .ended 0],
      Action.isOpened b = false := by simp [Action.isOpened]
  refine ⟨_, _, _, hRun, rfl, rfl, ?_⟩
  exact nothing_sent_closing (a := .close [chatLine ['h']]) hRun (.inl rfl) rfl rfl hOpened

end Client

/-! ### What the peer decodes -/

section Session

variable {δ : Type} {valid : String → Bool} {c c' : Client}

/-- What `send` hands over for packets, one after another. -/
def handOver (lib : Library δ) (ps : List (Packet δ)) : Result (List Payload) := do
  return (← encodeAll lib ps).map fun (isBinary, text) => .onEncode isBinary text

example (lib : Library δ) : handOver lib [.ofFrame FrameType.ping] = .ok [.ping] := rfl

/-- websocketpp does not refuse the text of the packet. -/
def Packet.isFramed (lib : Library δ) (p : Packet δ) : Bool := p.passes lib Utf8Validator.validate

theorem framed_passing (as : List (Bool × Text)) :
    ((as.map fun (isBinary, text) => Payload.onEncode isBinary text).filter
      Payload.isFramed).map Payload.text = passing Utf8Validator.validate as := by
  induction as with
  | nil => rfl
  | cons a as ih =>
    obtain ⟨isBinary, text⟩ := a
    cases isBinary with
    | true =>
      rw [List.map_cons, List.filter_cons_of_pos rfl, List.map_cons, ih]
      rfl
    | false =>
      have hFramed : (Payload.onEncode false text).isFramed = Utf8Validator.validate text := rfl
      rw [List.map_cons, List.filter_cons, passing_text, hFramed, ← ih]
      split <;> rfl

theorem handOver_eq_ok {lib : Library δ} {ps : List (Packet δ)} {payloads : List Payload}
    (h : handOver lib ps = .ok payloads) : ∃ as, encodeAll lib ps = .ok as ∧
      (payloads.filter Payload.isFramed).map Payload.text =
        passing Utf8Validator.validate as := by
  obtain ⟨as, hAs, h⟩ := Result.bind_eq_ok.1 h
  cases h
  exact ⟨as, hAs, framed_passing as⟩

/-- While a connection is open and nothing waits, the thread of the user sends packets that can be
read back and the thread of the network such packets without byte strings.  Once nothing waits any
more, the peer decodes from what was sent the packets of each thread whose texts are in UTF-8, as
`received` has them and in their order, and it waits for nothing. -/
theorem Client.session_decoded (lib : Library δ) (ps qs : List (Packet δ))
    {r : Reconnection} {as₀ as : List Action} (hBefore : Client.run valid (.create r) as₀ = some c)
    (hRun : Client.run valid c as = some c') (hOpened : ∀ a ∈ as, a.isOpened = false)
    (hOpen : c'.Open) (hStart : c.pending = []) (hEnd : c'.pending = [])
    (hps : ∀ p ∈ ps, p.Sendable lib ∨ p.IsControl)
    (hqs : ∀ q ∈ qs, q.Sendable lib ∧ q.hasBinary = false ∨ q.IsControl)
    (hPosted : handOver lib ps = .ok (as.filterMap Action.posted))
    (hHere : handOver lib qs = .ok (as.filterMap Action.here)) :
    ∃ wire out, c'.sent = c.sent ++ wire ∧
      putPayloads lib none (wire.map Payload.text) = .ok (none, out) ∧
      Interleave ((ps.filter (Packet.isFramed lib)).map Packet.received)
        ((qs.filter (Packet.isFramed lib)).map Packet.received) out := by
  obtain ⟨p, hAt, -⟩ := Client.run_phase hBefore
  obtain ⟨done, wire, hPending, hSent, hWire⟩ := (Client.Open.run hRun hAt hOpened hOpen).2
  rw [hStart, hEnd, List.nil_append, List.append_nil] at hPending
  subst hPending
  obtain ⟨as', hAs, hPassed⟩ := handOver_eq_ok hPosted
  obtain ⟨bs', hBs, hPassed'⟩ := handOver_eq_ok hHere
  have hTexts := hWire.map Payload.text
  rw [hPassed, hPassed'] at hTexts
  obtain ⟨out, hDecoded, hOut⟩ := interleaved_passing lib _ hps hqs hAs hBs hTexts
  exact ⟨wire, out, hSent, hDecoded, hOut⟩

/-- A chat line in Latin-1. -/
def latinLine : Packet Empty :=
  .ofMessage ['/'] (.array [.string ['m'], .string [Char.ofNat 0xE9]]) (-1) false

/-- The chat line and an event with a byte string are sent, and a ping in between. -/
def uploading : List Action :=
  [.send ⟨.text, "42[\"m\",\"".toList ++ [Char.ofNat 0xE9, '"', ']']⟩,
    .send ⟨.text, "451-[\"u\",\x7b\"_placeholder\":true,\"num\":0\x7d]".toList⟩, .handler,
    .handler, .ping, .send ⟨.binary, [Char.ofNat 4, 'x']⟩, .handler]

theorem Client.session_decoded_upload : ∃ c c' : Client,
    Client.run (fun _ => true) (.create .initial)
      [.connect "ws://localhost:8080" "", .handler, .opened] = some c ∧
    Client.run (fun _ => true) c uploading = some c' ∧
    ∃ wire out, c'.sent = c.sent ++ wire ∧
      putPayloads compactLibrary none (wire.map Payload.text) = .ok (none, out) ∧
      Interleave
        (([latinLine, upload ['x']].filter (Packet.isFramed compactLibrary)).map Packet.received)
        (([Packet.ofFrame FrameType.ping].filter (Packet.isFramed compactLibrary)).map
          Packet.received) out := by
  have hBefore : Client.run (fun _ => true) (.create .initial)
      [.connect "ws://localhost:8080" "", .handler, .opened] = some _ := rfl
  have hOpened : ∀ a ∈ uploading, a.isOpened = false := by simp [uploading, Action.isOpened]
  have hLine : latinLine.Sendable compactLibrary :=
    sendable_ofMessage false (.inr ⟨[], rfl, by simp⟩) (by decide) (by decide)
      ⟨trivial, trivial, trivial⟩ ⟨trivial, trivial, trivial⟩ (by
        intro v buffers h
        cases h
        decide)
  refine ⟨_, _, hBefore, rfl, ?_⟩
  refine Client.session_decoded compactLibrary [latinLine, upload ['x']]
    [Packet.ofFrame FrameType.ping] hBefore rfl hOpened ⟨rfl, ?_⟩ rfl rfl ?_ ?_ rfl rfl
  · rintro k (_ | ⟨_, hk⟩)
    · rfl
    · cases hk
  · intro p hp
    rcases List.mem_cons.1 hp with rfl | hp
    · exact .inl hLine
    · rw [List.mem_singleton] at hp
      exact .inl (hp ▸ sendable_upload ['x'])
  · intro q hq
    rw [List.mem_singleton] at hq
    exact .inr ⟨FrameType.ping, by decide, by decide, by decide, hq⟩

end Session

end Sio
