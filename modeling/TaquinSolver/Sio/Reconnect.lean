import TaquinSolver.Sio.Phases

/-! The runs of a client: the attempts follow the schedule of the settings, the client does not stop
without a word, and what a call of `close` and a rejected URI do to it. -/

namespace Sio

/-! ### The delays -/

namespace Reconnection

theorem nextDelay_toNat (r : Reconnection) (made : UInt32) :
    (r.nextDelay made).toNat =
      min (Floats.round 53 (r.delay.toNat * 3 ^ min made.toNat 32))
        (r.delayMax.toNat * 2 ^ min made.toNat 32) / 2 ^ min made.toNat 32 := by
  unfold nextDelay
  rw [UInt32.toNat_ofNat', Nat.mod_eq_of_lt]
  calc min (Floats.round 53 (r.delay.toNat * 3 ^ min made.toNat 32))
        (r.delayMax.toNat * 2 ^ min made.toNat 32) / 2 ^ min made.toNat 32
      ≤ r.delayMax.toNat * 2 ^ min made.toNat 32 / 2 ^ min made.toNat 32 :=
        Nat.div_le_div_right (min_le_right _ _)
    _ = r.delayMax.toNat := Nat.mul_div_cancel _ (Nat.two_pow_pos _)
    _ < 2 ^ 32 := r.delayMax.toNat_lt

theorem nextDelay_le (r : Reconnection) (made : UInt32) : r.nextDelay made ≤ r.delayMax := by
  rw [UInt32.le_iff_toNat_le, nextDelay_toNat]
  refine (Nat.div_le_div_right (min_le_right _ _)).trans ?_
  rw [Nat.mul_div_cancel _ (Nat.two_pow_pos _)]

theorem le_nextDelay (r : Reconnection) (made : UInt32) : r.delay ≤ r.nextDelay made := by
  rw [UInt32.le_iff_toNat_le, nextDelay_toNat, Nat.le_div_iff_mul_le (Nat.two_pow_pos _),
    le_min_iff]
  refine ⟨?_, Nat.mul_le_mul_right _ (UInt32.le_iff_toNat_le.1 r.le)⟩
  have hFits : r.delay.toNat < 2 ^ 53 := r.delay.toNat_lt.trans (by decide)
  calc r.delay.toNat * 2 ^ min made.toNat 32
      = 2 ^ min made.toNat 32 * Floats.round 53 r.delay.toNat := by
        rw [Floats.round_of_lt (by decide) hFits, Nat.mul_comm]
    _ = Floats.round 53 (2 ^ min made.toNat 32 * r.delay.toNat) :=
        (Floats.round_two_pow_mul (by decide) _ _).symm
    _ ≤ Floats.round 53 (r.delay.toNat * 3 ^ min made.toNat 32) := by
        apply Floats.round_mono (by decide)
        rw [Nat.mul_comm]
        exact Nat.mul_le_mul_left _ (Nat.pow_le_pow_left (by decide) _)

/-- The delays do not go down. -/
theorem nextDelay_mono (r : Reconnection) {made made' : UInt32} (h : made ≤ made') :
    r.nextDelay made ≤ r.nextDelay made' := by
  rw [UInt32.le_iff_toNat_le, nextDelay_toNat, nextDelay_toNat]
  have hMade : min made.toNat 32 ≤ min made'.toNat 32 :=
    min_le_min_right _ (UInt32.le_iff_toNat_le.1 h)
  generalize min made.toNat 32 = k at hMade ⊢
  generalize min made'.toNat 32 = l at hMade ⊢
  obtain ⟨d, rfl⟩ := Nat.exists_eq_add_of_le hMade
  -- over the common denominator `2 ^ (k + d)`
  rw [← Nat.mul_div_mul_right _ _ (Nat.two_pow_pos d), ← Nat.pow_add]
  apply Nat.div_le_div_right
  rw [← Nat.mul_min_mul_right]
  refine min_le_min ?_ ?_
  · calc Floats.round 53 (r.delay.toNat * 3 ^ k) * 2 ^ d
        = Floats.round 53 (2 ^ d * (r.delay.toNat * 3 ^ k)) := by
          rw [Floats.round_two_pow_mul (by decide), Nat.mul_comm]
      _ ≤ Floats.round 53 (r.delay.toNat * 3 ^ (k + d)) := by
          apply Floats.round_mono (by decide)
          rw [Nat.pow_add, ← Nat.mul_assoc r.delay.toNat, Nat.mul_comm (2 ^ d)]
          exact Nat.mul_le_mul_left _ (Nat.pow_le_pow_left (by decide) _)
  · rw [Nat.pow_add, Nat.mul_assoc]

example : (List.range 6).map (fun k => Reconnection.initial.nextDelay (.ofNat k)) =
    [5000, 7500, 11250, 16875, 25000, 25000] := by decide

end Reconnection

namespace Action

/-- The action sets what the schedule depends on. -/
def isSetter : Action → Bool
  | .setReconnectAttempts _ | .setReconnectDelay _ | .setReconnectDelayMax _ => true
  | _ => false

/-- A call of `close` or `sync_close`. -/
def isClose : Action → Bool
  | .close _ | .syncClose _ => true
  | _ => false

/-- A call of `connect`. -/
def isConnect : Action → Bool
  | .connect .. => true
  | _ => false

end Action

/-- What a client does while it closes. -/
def Effect.isEnding : Effect → Bool
  | .socketsClose | .socketsDisconnect | .closeListener .normal => true
  | .sent payload => payload = .ping
  | _ => false

namespace Client

variable {valid : String → Bool} {c c' : Client} {a : Action}

/-! ### The schedule -/

/-- An effect in the list of the attempts that were announced, with their delays. -/
def note (announced : List (UInt32 × UInt32)) : Effect → List (UInt32 × UInt32)
  | .runLoop | .openListener => []
  | .reconnectListener made delay => announced ++ [(made, delay)]
  | _ => announced

/-- The attempts announced since the last call of `connect` or opening. -/
def announced (es : List Effect) : List (UInt32 × UInt32) := es.foldl note []

theorem announced_append (es es' : List Effect) :
    announced (es ++ es') = es'.foldl note (announced es) := List.foldl_append

theorem foldl_note_aside {es : List Effect} (h : ∀ e ∈ es, e.isAside = true)
    (l : List (UInt32 × UInt32)) : es.foldl note l = l := by
  induction es with
  | nil => rfl
  | cons e es ih =>
    have hAside := h e List.mem_cons_self
    rw [List.foldl_cons, show note l e = l by cases e <;> first | rfl | cases hAside]
    exact ih fun e' he' => h e' (List.mem_cons_of_mem _ he')

/-- The first `n` attempts after a loss, as the settings have them. -/
def schedule (r : Reconnection) (n : Nat) : List (UInt32 × UInt32) :=
  (List.range n).map fun k => (.ofNat k, r.nextDelay (.ofNat k))

theorem schedule_length (r : Reconnection) (n : Nat) : (schedule r n).length = n := by
  rw [schedule, List.length_map, List.length_range]

theorem schedule_succ (r : Reconnection) (made : UInt32) :
    schedule r (made.toNat + 1) = schedule r made.toNat ++ [(made, r.nextDelay made)] := by
  simp [schedule, List.range_succ]

/-- What was announced is the beginning of the schedule. -/
structure Scheduled (r : Reconnection) (p : Phase) (made : UInt32) (es : List Effect) :
    Prop where
  announced : announced es = schedule r (announced es).length
  limit : (Client.announced es).length ≤ r.attempts.toNat
  length : p ≠ .idle →
    (Client.announced es).length = made.toNat + p.count .waiting + p.count .due

theorem Scheduled.same {r : Reconnection} {p p' : Phase} {made made' : UInt32}
    {es es' : List Effect} (h : Scheduled r p made es)
    (hSame : es'.foldl note (Client.announced es) = Client.announced es)
    (hLength : p' ≠ .idle → p ≠ .idle ∧ made'.toNat + p'.count .waiting + p'.count .due =
      made.toNat + p.count .waiting + p.count .due) : Scheduled r p' made' (es ++ es') := by
  have hEq : Client.announced (es ++ es') = Client.announced es := by
    rw [announced_append, hSame]
  refine ⟨?_, ?_, fun hp => ?_⟩
  · rw [hEq]
    exact h.announced
  · rw [hEq]
    exact h.limit
  · obtain ⟨hp, hCount⟩ := hLength hp
    rw [hEq, h.length hp, hCount]

theorem Scheduled.restart {r : Reconnection} {p : Phase} {es es' : List Effect}
    (hSame : es'.foldl note (Client.announced es) = [])
    (hp : p.count .waiting = 0 ∧ p.count .due = 0) : Scheduled r p 0 (es ++ es') := by
  have hEq : Client.announced (es ++ es') = [] := by rw [announced_append, hSame]
  refine ⟨?_, ?_, fun _ => ?_⟩
  · rw [hEq]
    rfl
  · rw [hEq]
    exact Nat.zero_le _
  · rw [hEq, hp.1, hp.2]
    rfl

theorem Scheduled.next {r : Reconnection} {interrupted : Prop} {p p' : Phase}
    {made made' : UInt32} {es es' : List Effect} (h : Scheduled r p made es)
    (hNext : Phase.Next valid r interrupted p made es' p' made') :
    Scheduled r p' made' (es ++ es') := by
  cases hNext with
  | stay p made hAside => exact h.same (foldl_note_aside hAside _) fun hp => ⟨hp, rfl⟩
  | connect => exact .restart rfl ⟨rfl, rfl⟩
  | answer => exact .restart rfl ⟨rfl, rfl⟩
  | attempt => exact h.same rfl fun _ => ⟨by decide, rfl⟩
  | expire => exact h.same rfl fun _ => ⟨by decide, rfl⟩
  | reject | giveUp | drop | finish | cancel | reject' | late =>
    exact h.same rfl fun hp => absurd rfl hp
  | @lose p made hp hMore =>
    have hLength : (Client.announced es).length = made.toNat := by
      rcases hp with rfl | rfl <;> exact h.length (by decide)
    have hEq : Client.announced
        (es ++ [.socketsDisconnect, .reconnectListener made (r.nextDelay made)]) =
          schedule r (made.toNat + 1) := by
      rw [announced_append, schedule_succ, ← hLength, ← h.announced]
      rfl
    refine ⟨?_, ?_, fun _ => ?_⟩
    · rw [hEq, schedule_length]
    · rw [hEq, schedule_length]
      exact UInt32.lt_iff_toNat_lt.1 hMore
    · rw [hEq, schedule_length]
      rfl
  | @retry made uri queryString _ =>
    refine h.same rfl fun _ => ⟨by decide, ?_⟩
    -- the attempt was announced, so the count does not wrap
    have hLength : (Client.announced es).length = made.toNat + 0 + 1 := h.length (by decide)
    have hLimit := h.limit
    have hSize := r.attempts.toNat_lt
    have hMade : (made + 1).toNat = made.toNat + 1 := by
      rw [UInt32.toNat_add, UInt32.toNat_one, Nat.mod_eq_of_lt (by omega)]
    rw [hMade]
    rfl

theorem Moves.reconnection (h : Moves valid c a c') (hSetter : a.isSetter = false) :
    c'.reconnection = c.reconnection := by
  cases h with
  | sets hAction => rcases hAction with ⟨n, rfl⟩ | ⟨n, rfl⟩ | ⟨n, rfl⟩ <;> cases hSetter
  | failed =>
    obtain ⟨timer, es, hShape⟩ := reconnect_shape _ _
    rw [hShape]
  | ended =>
    obtain ⟨timer, es, hShape⟩ := onClose_shape _ _
    rw [hShape]
  | sendHandler | sendHere =>
    rcases sendImpl_cases _ _ with hSent | hSent
    · rw [hSent]
    · rw [hSent, emit]
  | pings =>
    rcases ping_cases c with hSent | hSent
    · rw [hSent]
    · rw [hSent, emit]
  | _ => rfl

theorem failed_effects (hStep : step valid c .failed = some c') :
    0 < c.attempts ∧ c'.effects = c.effects ++ [.socketsDisconnect,
      if c.reconnMade < c.reconnection.attempts then
        .reconnectListener c.reconnMade (c.reconnection.nextDelay c.reconnMade)
      else .failListener] := by
  simp only [step, loop] at hStep
  split at hStep
  · split at hStep <;> cases hStep
    refine ⟨‹_›, ?_⟩
    simp only [onFail, reconnect, emit]
    by_cases hMore : c.reconnMade < c.reconnection.attempts <;> simp [hMore]
  · cases hStep

theorem delays_pairwise {r : Reconnection} {n : Nat} (h : n ≤ r.attempts.toNat) :
    ((schedule r n).map Prod.snd).Pairwise (· ≤ ·) := by
  rw [schedule, List.map_map, List.pairwise_map]
  refine List.Pairwise.imp_of_mem ?_ List.pairwise_lt_range
  intro k l hk hl hLt
  rw [List.mem_range] at hk hl
  have hSize := r.attempts.toNat_lt
  apply r.nextDelay_mono
  rw [UInt32.le_iff_toNat_le, UInt32.toNat_ofNat', UInt32.toNat_ofNat',
    Nat.mod_eq_of_lt (by omega), Nat.mod_eq_of_lt (by omega)]
  exact hLt.le

/-- While the settings stay, a lost client announces its attempts in the order and with the delays
of the schedule, at most as many as it may make; and after a failed attempt it announces the next
one or, when it has made them all, tells its fail listener.  The delays do not go down, and lie
between `m_reconn_delay` and `m_reconn_delay_max`. -/
theorem attempts_scheduled {r : Reconnection} {as : List Action}
    (hRun : run valid (create r) as = some c) (hSetters : ∀ a ∈ as, a.isSetter = false) :
    let n := (announced c.effects).length
    announced c.effects = schedule r n ∧ n ≤ r.attempts.toNat ∧
      ((announced c.effects).map Prod.snd).Pairwise (· ≤ ·) ∧
      (∀ d ∈ (announced c.effects).map Prod.snd, r.delay ≤ d ∧ d ≤ r.delayMax) ∧
      ∀ c', step valid c .failed = some c' →
        c'.effects = c.effects ++ [.socketsDisconnect,
          if n < r.attempts.toNat then .reconnectListener (.ofNat n) (r.nextDelay (.ofNat n))
          else .failListener] := by
  intro n
  have h : ∃ p, c.At p ∧ c.reconnection = r ∧ Scheduled r p c.reconnMade c.effects := by
    refine Concurrent.run_invariant_of_mem
      (P := fun c => ∃ p, c.At p ∧ c.reconnection = r ∧ Scheduled r p c.reconnMade c.effects) ?_
      hSetters ⟨.idle, at_create r, rfl, rfl, Nat.zero_le _, fun hp => absurd rfl hp⟩ hRun
    rintro c a c' ⟨p, hAt, hReconnection, hScheduled⟩ hSetter hStep
    obtain ⟨p', es, hNext, hEffects, hAt'⟩ := follows_of_step hAt hStep
    rw [hReconnection] at hNext
    refine ⟨p', hAt', ?_, hEffects ▸ hScheduled.next hNext⟩
    rw [(step_moves hStep).reconnection hSetter, hReconnection]
  obtain ⟨p, hAt, hReconnection, hScheduled⟩ := h
  refine ⟨hScheduled.announced, hScheduled.limit, ?_, ?_, fun c' hStep => ?_⟩
  · rw [hScheduled.announced]
    exact delays_pairwise hScheduled.limit
  · rw [hScheduled.announced]
    intro d hd
    rw [schedule, List.map_map, List.mem_map] at hd
    obtain ⟨k, -, rfl⟩ := hd
    exact ⟨r.le_nextDelay _, r.nextDelay_le _⟩
  · obtain ⟨hAttempts, hEffects⟩ := failed_effects hStep
    obtain rfl := Phase.eq_of_count hAt.attempts hAttempts
    have hLength : n = c.reconnMade.toNat := hScheduled.length (by decide)
    rw [hEffects, hReconnection, hLength, UInt32.ofNat_toNat]
    rfl

/-- With one attempt allowed after the first, the second failure is the last. -/
theorem attempts_scheduled_once : ∃ c : Client,
    run (fun _ => true) (create (Reconnection.initial.setReconnectAttempts 1))
      [.connect "ws://localhost:8080" "", .handler, .failed, .expired, .handler] = some c ∧
    let r := Reconnection.initial.setReconnectAttempts 1
    let n := (announced c.effects).length
    announced c.effects = schedule r n ∧ n ≤ r.attempts.toNat ∧
      ((announced c.effects).map Prod.snd).Pairwise (· ≤ ·) ∧
      (∀ d ∈ (announced c.effects).map Prod.snd, r.delay ≤ d ∧ d ≤ r.delayMax) ∧
      ∀ c', step (fun _ => true) c .failed = some c' →
        c'.effects = c.effects ++ [.socketsDisconnect,
          if n < r.attempts.toNat then .reconnectListener (.ofNat n) (r.nextDelay (.ofNat n))
          else .failListener] :=
  have hRun : run (fun _ => true)
      (create (Reconnection.initial.setReconnectAttempts 1) : Client)
      [.connect "ws://localhost:8080" "", .handler, .failed, .expired, .handler] = some _ := rfl
  ⟨_, hRun, attempts_scheduled hRun (by decide)⟩

/-! ### No silence -/

/-- The last effect that says something about the connection. -/
def lastWord (es : List Effect) : Option (Effect) :=
  (es.filter fun e => !e.isAside).getLast?

theorem lastWord_aside {es es' : List Effect} (h : ∀ e ∈ es', e.isAside = true) :
    lastWord (es ++ es') = lastWord es := by
  have hNil : es'.filter (fun e => !e.isAside) = [] :=
    List.filter_eq_nil_iff.2 fun e he => by simp [h e he]
  rw [lastWord, List.filter_append, hNil, List.append_nil, lastWord]

theorem lastWord_concat (es : List Effect) {e : Effect} (h : e.isAside = false) :
    lastWord (es ++ [e]) = some e := by
  simp [lastWord, h]

/-- The user was told that the client stops. -/
def Told (es : List Effect) : Prop :=
  lastWord es = some .failListener ∨ ∃ reason, lastWord es = some (.closeListener reason)

/-- The user has not closed the client. -/
structure Unclosed (c : Client) : Prop where
  state : c.conState ≠ .closing
  handlers : ∀ code, .closeImpl code ∉ c.handlers
  joining : c.joining ≠ some .syncClose

theorem Unclosed.take {hd : Handler} {hs : List Handler} (h : Unclosed c)
    (hHandlers : c.handlers = hd :: hs) : Unclosed { c with handlers := hs } :=
  { h with handlers := fun code hMem =>
      h.handlers code (by rw [hHandlers]; exact List.mem_cons_of_mem _ hMem) }

theorem Unclosed.post (h : Unclosed c) (hd : Handler) (hOther : ∀ code, .closeImpl code ≠ hd) :
    Unclosed { c with handlers := c.handlers ++ [hd] } := by
  refine { h with handlers := fun code hMem => ?_ }
  rcases List.mem_append.1 hMem with hMem | hMem
  · exact h.handlers code hMem
  · exact hOther code (List.mem_singleton.1 hMem)

theorem Unclosed.restart (h : Unclosed c) (uri queryString : String) :
    Unclosed (c.restart uri queryString) where
  state := by simp [Client.restart, emit]
  handlers := (h.post (.connectImpl uri queryString) fun code hEq => by cases hEq).handlers
  joining := by simp [Client.restart, emit]

theorem restart_connecting (c : Client) (uri queryString : String) :
    0 < (c.restart uri queryString).connecting := by
  simp [Client.restart, emit, connecting, Handler.isConnect]

/-- The client is not closed, and either `connect` starts it anew or a call that waits goes on
waiting. -/
theorem Unclosed.step (h : Unclosed c) (hMoves : Moves valid c a c') (hClose : a.isClose = false) :
    Unclosed c' ∧ (0 < c'.connecting ∨
      c'.networkThread = c.networkThread ∧ (c.joining ≠ none → c'.joining ≠ none)) := by
  cases hMoves with
  | ignored | sets | alters | handshake | aborts | runEnds => exact ⟨{ h with }, .inr ⟨rfl, id⟩⟩
  | joins => exact ⟨{ h with joining := by simp }, .inr ⟨rfl, fun _ => by simp⟩⟩
  | starts =>
    have h' : Unclosed { c with reconnTimer := false } := { h with }
    exact ⟨h'.restart _ _, .inl (restart_connecting _ _ _)⟩
  | joinedConnect => exact ⟨h.restart _ _, .inl (restart_connecting _ _ _)⟩
  | joinedClose _ hJoin => exact absurd hJoin h.joining
  | closes hAction _ => rcases hAction with rfl | rfl <;> cases hClose
  | sends payload => exact ⟨h.post _ (fun code hEq => by cases hEq), .inr ⟨rfl, id⟩⟩
  | expired =>
    exact ⟨{ h.post .timeoutReconnect (fun code hEq => by cases hEq) with }, .inr ⟨rfl, id⟩⟩
  | attempts hHandlers | rejects hHandlers | late hHandlers =>
    exact ⟨{ h.take hHandlers with }, .inr ⟨rfl, id⟩⟩
  | reattempts hHandlers | rerejects hHandlers =>
    exact ⟨{ h.take hHandlers with state := by simp }, .inr ⟨rfl, id⟩⟩
  | closeHandler hHandlers =>
    exact absurd (by rw [hHandlers]; exact List.mem_cons_self) (h.handlers _)
  | sendHandler hHandlers =>
    rcases sendImpl_cases _ _ with hSent | hSent <;> rw [hSent] <;>
      exact ⟨{ h.take hHandlers with }, .inr ⟨rfl, id⟩⟩
  | sendHere payload =>
    rcases c.sendImpl_cases payload with hSent | hSent <;> rw [hSent] <;>
      exact ⟨{ h with }, .inr ⟨rfl, id⟩⟩
  | pings =>
    rcases c.ping_cases with hSent | hSent <;> rw [hSent] <;> exact ⟨{ h with }, .inr ⟨rfl, id⟩⟩
  | opened => exact ⟨{ h with state := by simp }, .inr ⟨rfl, id⟩⟩
  | failed =>
    obtain ⟨timer, es, hShape⟩ := reconnect_shape _ _
    rw [hShape]
    exact ⟨{ h with state := by simp }, .inr ⟨rfl, id⟩⟩
  | ended =>
    obtain ⟨timer, es, hShape⟩ := onClose_shape _ _
    rw [hShape]
    exact ⟨{ h with state := by simp }, .inr ⟨rfl, id⟩⟩

/-- A client that stands still has said so, or a call of `connect` waits, or it was never told to
connect. -/
def Spoken (p : Phase) (c : Client) : Prop :=
  p = .idle → c.networkThread = true → c.joining ≠ none ∨ Told c.effects

theorem told_of_next {r : Reconnection} {interrupted : Prop} {p : Phase} {made made' : UInt32}
    {es : List Effect} (h : Phase.Next valid r interrupted p made es .idle made')
    (before : List Effect) :
    interrupted ∧ p ≠ .connected ∨ p = .idle ∧ (∀ e ∈ es, e.isAside = true) ∨
      Told (before ++ es) := by
  cases h with
  | stay _ _ hAside => exact .inr (.inl ⟨rfl, hAside⟩)
  | cancel _ hCause => exact .inl ⟨hCause, by decide⟩
  | late _ hCause => exact .inl ⟨hCause, by decide⟩
  | reject => exact .inr (.inr (.inl (lastWord_concat _ rfl)))
  | giveUp | reject' =>
    rw [← List.concat_append, List.concat_eq_append]
    exact .inr (.inr (.inl (lastWord_concat _ rfl)))
  | drop | finish =>
    rw [← List.concat_append, List.concat_eq_append]
    exact .inr (.inr (.inr ⟨_, lastWord_concat _ rfl⟩))

theorem Spoken.step {p : Phase} (h : Spoken p c) (hAt : c.At p) (hUnclosed : Unclosed c)
    (hClose : a.isClose = false) (hPong : a = .timeoutPong → c.connections ≠ [])
    (hStep : Client.step valid c a = some c') : ∃ p', c'.At p' ∧ Spoken p' c' := by
  obtain ⟨p', es, hNext, hEffects, hAt'⟩ := follows_of_step hAt hStep
  refine ⟨p', hAt', fun hp' hThread => ?_⟩
  subst hp'
  have hKept := (hUnclosed.step (step_moves hStep) hClose).2.resolve_left
    (by rw [hAt'.connecting]; decide)
  rw [hEffects]
  rcases told_of_next hNext c.effects with ⟨hInterrupted, hp⟩ | ⟨rfl, hAside⟩ | hTold
  · refine .inl ?_
    rcases hInterrupted with hJoin | hClosing | hLate | ⟨code, hMem⟩
    · exact hJoin
    · exact absurd hClosing hUnclosed.state
    · exact absurd (Phase.eq_of_count hAt.connections (List.length_pos_iff.2 (hPong hLate))) hp
    · exact absurd hMem (hUnclosed.handlers code)
  · rcases h rfl (hKept.1 ▸ hThread) with hJoin | hTold
    · exact .inl (hKept.2 hJoin)
    · rw [Told, lastWord_aside hAside]
      exact .inr hTold
  · exact .inr hTold

/-- A client that the user connects and does not close never stops in silence, as long as no pong is
called late after its connection has ended: it is connected or on its way to a connection, or a call
of `connect` waits for its thread, or the last listener that it has called is the one for a failure
or the one for a close. -/
theorem never_silent {r : Reconnection} {as : List Action}
    (hRun : run valid (create r) as = some c) (hClose : ∀ a ∈ as, a.isClose = false)
    (hPong : ∀ as₁ as₂ m, as = as₁ ++ .timeoutPong :: as₂ → run valid (create r) as₁ = some m →
      m.connections ≠ [])
    (hThread : c.networkThread = true) :
    (∃ p, c.At p ∧ p ≠ .idle) ∨ c.joining ≠ none ∨ Told c.effects := by
  have h : Unclosed c ∧ ∃ p, c.At p ∧ Spoken p c := by
    refine Concurrent.run_invariant
      (P := fun c => Unclosed c ∧ ∃ p, c.At p ∧ Spoken p c)
      (C := fun c a => a.isClose = false ∧ (a = .timeoutPong → c.connections ≠ [])) ?_ ?_ ?_ hRun
    · rintro c a c' ⟨hUnclosed, p, hAt, hSpoken⟩ ⟨hNot, hLate⟩ hStep
      exact ⟨(hUnclosed.step (step_moves hStep) hNot).1,
        hSpoken.step hAt hUnclosed hNot hLate hStep⟩
    · rintro as₁ a as₂ m hEq hPre
      refine ⟨hClose a (by rw [hEq]; simp), ?_⟩
      rintro rfl
      exact hPong as₁ as₂ m hEq hPre
    · exact ⟨⟨by simp [create], fun _ => by simp [create], by simp [create]⟩, .idle, at_create r,
        fun _ hThread => by cases hThread⟩
  obtain ⟨-, p, hAt, hSpoken⟩ := h
  by_cases hp : p = .idle
  · exact .inr (hSpoken hp hThread)
  · exact .inl ⟨p, hAt, hp⟩

/-- No attempt is allowed after the first, and the first fails. -/
theorem never_silent_once : ∃ c : Client,
    run (fun _ => true) (create (Reconnection.initial.setReconnectAttempts 0))
      [.connect "ws://localhost:8080" "", .handler, .failed] = some c ∧
    ((∃ p, c.At p ∧ p ≠ .idle) ∨ c.joining ≠ none ∨ Told c.effects) := by
  have hRun : run (fun _ => true)
      (create (Reconnection.initial.setReconnectAttempts 0) : Client)
      [.connect "ws://localhost:8080" "", .handler, .failed] = some _ := rfl
  refine ⟨_, hRun, never_silent hRun (by decide) (fun as₁ as₂ m hEq => ?_) rfl⟩
  have hMem : Action.timeoutPong ∈ as₁ ++ (Action.timeoutPong : Action) :: as₂ := by simp
  rw [← hEq] at hMem
  simp at hMem

/-! ### A call of `close` -/

theorem sendImpl_of_ne (h : c.conState ≠ .opened) (payload : Payload) :
    c.sendImpl payload = c := by
  rw [sendImpl, if_neg h]

theorem step_handler {h : Handler} {hs : List Handler} (hLoop : c.looping = true)
    (hHandlers : c.handlers = h :: hs) :
    step valid c .handler = some ({ c with handlers := hs }.runHandler valid h) := by
  simp only [step, loop, hLoop, hHandlers, if_true]

theorem step_close (hJoin : c.joining = none) (payloads : List Payload) :
    step valid c (.close payloads) = some (c.close payloads) := by
  simp only [step, hJoin, if_true, call]

/-- The client closes or has closed, and nothing is left that could open it. -/
structure Ending (c : Client) : Prop where
  state : c.conState = .closing ∨ c.conState = .closed ∧ c.reconnTimer = false ∧ c.due = 0
  connecting : c.connecting = 0
  attempts : c.attempts = 0
  single : c.connections ≠ [] → c.reconnTimer = false ∧ c.due = 0
  joining : ∀ uri queryString, c.joining ≠ some (.connect uri queryString)

theorem Ending.ne_opened (h : Ending c) : c.conState ≠ .opened := by
  rcases h.state with h | ⟨h, -, -⟩ <;> rw [h] <;> decide

theorem Ending.closeImpl (h : Ending c) (code : Nat) : Ending (c.closeImpl code) := by
  refine { h with state := ?_, single := fun hConnections => ⟨rfl, (h.single ?_).2⟩ }
  · rcases h.state with hState | ⟨hState, -, hDue⟩
    · exact .inl hState
    · exact .inr ⟨hState, rfl, hDue⟩
  · rintro hNil
    apply hConnections
    simp [Client.closeImpl, hNil]

theorem Ending.take (h : Ending c) {hd : Handler} {hs : List Handler}
    (hHandlers : c.handlers = hd :: hs) :
    hd.isConnect = false ∧ Ending { c with handlers := hs } := by
  obtain ⟨hConnecting, hDue⟩ := handlers_cons hHandlers
  rw [h.connecting] at hConnecting
  have hLess : ∀ {n : Nat}, c.due = 0 → c.due = hs.countP Handler.isTimeout + n →
      hs.countP Handler.isTimeout = 0 := by omega
  refine ⟨?_, { h with state := ?_, connecting := ?_, single := fun hConnections => ?_ }⟩
  · cases hb : hd.isConnect
    · rfl
    · simp [hb] at hConnecting
  · rcases h.state with hState | ⟨hState, hTimer, hNone⟩
    · exact .inl hState
    · exact .inr ⟨hState, hTimer, hLess hNone hDue⟩
  · exact (Nat.eq_zero_of_add_eq_zero hConnecting.symm).1
  · exact ⟨(h.single hConnections).1, hLess (h.single hConnections).2 hDue⟩

theorem Ending.post (h : Ending c) (hs : List Handler)
    (hConnect : hs.countP Handler.isConnect = 0) (hTimeout : hs.countP Handler.isTimeout = 0) :
    Ending { c with handlers := c.handlers ++ hs } := by
  have hDue : ({ c with handlers := c.handlers ++ hs } : Client).due = c.due := by
    rw [due, List.countP_append, hTimeout]
    rfl
  refine { h with connecting := ?_, state := ?_, single := ?_ }
  · rw [hDue]
    exact h.state
  · change (c.handlers ++ hs).countP _ = 0
    rw [List.countP_append, hConnect]
    exact h.connecting
  · rw [hDue]
    exact h.single

/-- A connection that ends in the step had the code of a normal close. -/
def EndsNormally (c : Client) (a : Action) : Prop :=
  ∀ i k, a = .ended i → c.connections[i]? = some k → k.localCloseCode = CloseStatus.normal

theorem Ending.step (h : Ending c) (hMoves : Moves valid c a c') (hConnect : a.isConnect = false)
    (hEnds : EndsNormally c a) :
    Ending c' ∧ ∃ es, c'.effects = c.effects ++ es ∧ ∀ e ∈ es, e.isEnding = true := by
  have hSame : ∃ es, c.effects = c.effects ++ es ∧ ∀ e ∈ es, Effect.isEnding e = true :=
    ⟨[], (List.append_nil _).symm, by simp⟩
  cases hMoves with
  | ignored | joins | starts => cases hConnect
  | @closes _ payloads joining _ hJoin =>
    have hSends := h.post (payloads.map .sendImpl)
      (List.countP_eq_zero.2 (by simp [Handler.isConnect]))
      (List.countP_eq_zero.2 (by simp [Handler.isTimeout]))
    have hClose := hSends.post [.closeImpl CloseStatus.normal] rfl rfl
    refine ⟨{ hClose with state := .inl rfl, joining := ?_ }, [.socketsClose], rfl, by
      simp [Effect.isEnding]⟩
    rcases hJoin with rfl | rfl
    · exact h.joining
    · simp
  | sends payload => exact ⟨h.post [.sendImpl payload] rfl rfl, hSame⟩
  | sets | handshake | runEnds => exact ⟨{ h with }, hSame⟩
  | joinedConnect _ hJoin => exact absurd hJoin (h.joining _ _)
  | joinedClose => exact ⟨{ h with joining := by simp }, hSame⟩
  | attempts hHandlers | rejects hHandlers => cases (h.take hHandlers).1
  | reattempts hHandlers hState | rerejects hHandlers hState =>
    have hDue := (handlers_cons hHandlers).2
    rcases h.state with hClosing | ⟨-, -, hNone⟩
    · rw [hState] at hClosing
      cases hClosing
    · rw [hNone] at hDue
      simp [Handler.isTimeout] at hDue
  | late hHandlers => exact ⟨(h.take hHandlers).2, hSame⟩
  | closeHandler hHandlers => exact ⟨(h.take hHandlers).2.closeImpl _, hSame⟩
  | sendHandler hHandlers =>
    have h' := (h.take hHandlers).2
    rw [sendImpl_of_ne h'.ne_opened]
    exact ⟨h', hSame⟩
  | sendHere payload =>
    rw [sendImpl_of_ne h.ne_opened]
    exact ⟨h, hSame⟩
  | pings =>
    rcases c.ping_cases with hSent | hSent <;> rw [hSent]
    · exact ⟨h, hSame⟩
    · exact ⟨{ h with }, [.sent .ping], rfl, by simp [Effect.isEnding]⟩
  | expired hTimer =>
    have hClosing : c.conState = .closing := by
      rcases h.state with hState | ⟨-, hNone, -⟩
      · exact hState
      · rw [hTimer] at hNone
        cases hNone
    refine ⟨{ h with state := .inl hClosing, connecting := ?_, single := fun hConnections => ?_ },
      hSame⟩
    · change (c.handlers ++ [Handler.timeoutReconnect]).countP _ = 0
      rw [List.countP_append]
      exact h.connecting
    · rw [(h.single hConnections).1] at hTimer
      cases hTimer
  | opened hAttempts | failed hAttempts =>
    rw [h.attempts] at hAttempts
    cases hAttempts
  | @alters _ i k k' hk =>
    refine ⟨{ h with single := fun hConnections => h.single fun hNil => ?_ }, hSame⟩
    rw [hNil] at hk
    cases hk
  | @ended i k hk =>
    have hConnections : c.connections ≠ [] := by
      rintro hNil
      rw [hNil] at hk
      cases hk
    obtain ⟨hTimer, hDue⟩ := h.single hConnections
    rw [hEnds i k rfl hk]
    exact ⟨{ h with state := .inr ⟨rfl, hTimer, hDue⟩, single := fun _ => ⟨hTimer, hDue⟩ },
      [.socketsDisconnect, .closeListener .normal], List.append_assoc .., by simp [Effect.isEnding]⟩
  | aborts => exact ⟨h.closeImpl _, hSame⟩

/-- A call of `close` without an attempt under way leaves nothing that could open the client. -/
theorem ending_close {p : Phase} (h : c.At p) (hJoin : c.joining = none)
    (hConnecting : c.connecting = 0) (hAttempts : c.attempts = 0) (payloads : List Payload) :
    Ending (c.close payloads) := by
  have hClose := h.close payloads
  refine ⟨.inl rfl, ?_, hAttempts, fun hConnections => ?_, ?_⟩
  · rw [hClose.connecting, ← h.connecting, hConnecting]
  · have hSingle := hClose.single
    have hOne := List.length_pos_iff.2 hConnections
    exact ⟨Bool.toNat_eq_zero.1 (by omega), by omega⟩
  · simp [Client.close, emit, hJoin]

/-- A posted `connect_impl` runs although the client closes, and makes an attempt or fails. -/
theorem run_connecting (hLoop : c.looping = true) (hState : c.conState = .closing)
    (hConnecting : 0 < c.connecting) : ∃ n c' es e,
      run valid c (List.replicate n .handler) = some c' ∧ c'.effects = c.effects ++ es ∧ e ∈ es ∧
        e.isEnding = false := by
  generalize hHandlers : c.handlers = hs
  induction hs generalizing c with
  | nil =>
    rw [connecting, hHandlers] at hConnecting
    cases hConnecting
  | cons h hs ih =>
    have hStep : step valid c .handler = _ := step_handler hLoop hHandlers
    have hRest := (handlers_cons hHandlers).1
    -- another handler comes first, and leaves the rest to the induction
    have hLater : ∀ m : Client, { c with handlers := hs }.runHandler valid h = m →
        h.isConnect = false → m.looping = true → m.conState = .closing → m.handlers = hs →
        m.effects = c.effects → ∃ n c' es e, run valid c (List.replicate n .handler) = some c' ∧
          c'.effects = c.effects ++ es ∧ e ∈ es ∧ e.isEnding = false := by
      intro m hm hOther hLoop' hState' hHandlers' hEffects
      rw [hOther, Bool.toNat_false, Nat.add_zero] at hRest
      have hConnecting' : 0 < m.connecting := by
        rw [connecting, hHandlers', ← hRest]
        exact hConnecting
      obtain ⟨n, c', es, e, hRun, hEs, hMem, hEnding⟩ := ih hLoop' hState' hConnecting' hHandlers'
      refine ⟨n + 1, c', es, e, ?_, hEffects ▸ hEs, hMem, hEnding⟩
      exact Concurrent.run_cons.2 ⟨m, by rw [hStep, hm], hRun⟩
    cases h with
    | connectImpl uri queryString =>
      have hRun : run valid c (List.replicate 1 .handler) =
          some (connectImpl valid { c with handlers := hs } uri queryString) :=
        Concurrent.run_cons.2 ⟨_, hStep, rfl⟩
      rcases hValid : valid uri with _ | _ <;> rw [connectImpl, hValid] at hRun
      · exact ⟨1, _, [.failListener], _, hRun, rfl, List.mem_cons_self, rfl⟩
      · exact ⟨1, _, [.attempt uri c.sid queryString], _, hRun, rfl, List.mem_cons_self, rfl⟩
    | closeImpl code => exact hLater _ rfl rfl hLoop hState rfl rfl
    | timeoutReconnect =>
      refine hLater { c with handlers := hs } ?_ rfl hLoop hState rfl rfl
      rw [runHandler, timeoutReconnect, if_neg (by simp [hState])]
    | sendImpl payload =>
      refine hLater { c with handlers := hs } ?_ rfl hLoop hState rfl rfl
      exact sendImpl_of_ne (by simp [hState]) payload

/-- No connection ends in the run with another code than that of a normal close. -/
def AllEndNormally (valid : String → Bool) (c : Client) (as : List Action) : Prop :=
  ∀ as₁ a as₂ m, as = as₁ ++ a :: as₂ → run valid c as₁ = some m → EndsNormally m a

theorem AllEndNormally.of_notMem {as : List Action} (h : ∀ i, .ended i ∉ as) :
    AllEndNormally valid c as := by
  rintro as₁ a as₂ m rfl - i k rfl -
  exact absurd (by simp) (h i)

theorem AllEndNormally.tail {m : Client} {as : List Action} (h : AllEndNormally valid c (a :: as))
    (hStep : step valid c a = some m) : AllEndNormally valid m as := by
  rintro as₁ b as₂ m' rfl hPre
  exact h (a :: as₁) b as₂ m' rfl (Concurrent.run_cons.2 ⟨m, hStep, hPre⟩)

theorem Ending.run {as : List Action} (h : Ending c) (hRun : run valid c as = some c')
    (hConnect : ∀ a ∈ as, a.isConnect = false) (hNormal : AllEndNormally valid c as) :
    ∃ es, c'.effects = c.effects ++ es ∧ ∀ e ∈ es, e.isEnding = true := by
  refine (Concurrent.run_invariant (P := fun m => Ending m ∧
    ∃ es, m.effects = c.effects ++ es ∧ ∀ e ∈ es, e.isEnding = true)
    (C := fun m a => a.isConnect = false ∧ EndsNormally m a) ?_ ?_
    ⟨h, [], (List.append_nil _).symm, by simp⟩ hRun).2
  · rintro m a m' ⟨hEnding, es, hEffects, hEs⟩ ⟨hOther, hEnds⟩ hStep
    obtain ⟨hEnding', es', hEffects', hEs'⟩ := hEnding.step (step_moves hStep) hOther hEnds
    refine ⟨hEnding', es ++ es', by rw [hEffects', hEffects, List.append_assoc], ?_⟩
    intro e he
    rcases List.mem_append.1 he with he | he
    · exact hEs e he
    · exact hEs' e he
  · intro as₁ a as₂ m hEq hPre
    exact ⟨hConnect a (by rw [hEq]; simp), hNormal as₁ a as₂ m hEq hPre⟩

theorem step_opened (hLoop : c.looping = true) (hAttempts : 0 < c.attempts) :
    step valid c .opened = some ({ c with
      attempts := c.attempts - 1, connections := .opened :: c.connections } : Client).onOpen := by
  simp only [step, hLoop, loop, hAttempts, if_true]

/-- A call of `close` ends the client for good if and only if no `connect_impl` is posted and no
attempt is unanswered at that time.  Then, whatever follows but a call of `connect` or a connection
that ends with another code than that of a normal close, the client only closes its sockets, sends
pings and tells its close listener.  Otherwise the client goes on to attempt or to open. -/
theorem close_final_iff {r : Reconnection} {as₀ : List Action}
    (hRun : run valid (create r) as₀ = some c) (hJoin : c.joining = none)
    (payloads : List Payload) :
    c.connecting = 0 ∧ c.attempts = 0 ↔ ∀ as c', (∀ a ∈ as, a.isConnect = false) →
      AllEndNormally valid c (.close payloads :: as) →
      run valid c (.close payloads :: as) = some c' →
      ∃ es, c'.effects = c.effects ++ es ∧ ∀ e ∈ es, e.isEnding = true := by
  obtain ⟨p, hAt, -⟩ := run_phase hRun
  have hClose : step valid c (.close payloads) = _ := step_close hJoin payloads
  have hPhase := hAt.close payloads
  constructor
  · rintro ⟨hConnecting, hAttempts⟩ as c' hConnect hNormal hAfter
    obtain ⟨m, hFirst, hRest⟩ := Concurrent.run_cons.1 hAfter
    cases hClose.symm.trans hFirst
    obtain ⟨es, hEffects, hEs⟩ := (ending_close hAt hJoin hConnecting hAttempts payloads).run hRest
      hConnect (hNormal.tail hClose)
    refine ⟨.socketsClose :: es, hEffects.trans (List.append_assoc ..), ?_⟩
    rintro e (_ | ⟨_, he⟩)
    · rfl
    · exact hEs e he
  · intro h
    -- what the client goes on to do is no ending
    have hNever : ∀ {as : List Action} {c' : Client} {es : List Effect} {e : Effect},
        (∀ a ∈ as, a.isConnect = false) → (∀ i, .ended i ∉ as) →
        run valid (c.close payloads) as = some c' →
        c'.effects = (c.close payloads).effects ++ es → e ∈ es → e.isEnding = true := by
      intro as c' es e hConnect hEnded hAfter hEffects he
      obtain ⟨es', hEffects', hEs'⟩ := h as c' hConnect
        (.of_notMem fun i hi => by
          rcases List.mem_cons.1 hi with hi | hi
          · cases hi
          · exact hEnded i hi) (Concurrent.run_cons.2 ⟨_, hClose, hAfter⟩)
      apply hEs' e
      have hSplit : c.effects ++ ([.socketsClose] ++ es) = c.effects ++ es' := by
        rw [← hEffects', hEffects, ← List.append_assoc]
        rfl
      rw [← List.append_cancel_left hSplit]
      exact List.mem_append_right _ he
    have hLoop : p ≠ .idle → (c.close payloads).looping = true := hPhase.isLooping
    refine ⟨Nat.eq_zero_of_not_pos fun hConnecting => ?_,
      Nat.eq_zero_of_not_pos fun hAttempts => ?_⟩
    · have hp := Phase.eq_of_count hAt.connecting hConnecting
      have hPosted : 0 < (c.close payloads).connecting := by
        rw [hPhase.connecting, ← hAt.connecting]
        exact hConnecting
      obtain ⟨n, c', es, e, hAfter, hEffects, he, hOther⟩ :=
        run_connecting (hLoop (by rw [hp]; decide)) rfl hPosted
      have hEnding := hNever (by simp [Action.isConnect]) (by simp) hAfter hEffects he
      rw [hOther] at hEnding
      cases hEnding
    · have hp := Phase.eq_of_count hAt.attempts hAttempts
      have hOpened : step valid (c.close payloads) .opened = _ :=
        step_opened (hLoop (by rw [hp]; decide)) hAttempts
      have hAfter : run valid (c.close payloads) [.opened] = some _ :=
        Concurrent.run_cons.2 ⟨_, hOpened, rfl⟩
      have hEnding : Effect.openListener.isEnding = true :=
        @hNever [.opened] _ [.socketsOpen, .openListener] .openListener
          (by simp [Action.isConnect]) (by simp) hAfter rfl (by simp)
      cases hEnding

/-- A connected client is closed. -/
theorem close_final_connected : ∃ c : Client,
    run (fun _ => true) (create .initial)
      [.connect "ws://localhost:8080" "", .handler, .opened] = some c ∧
    (c.connecting = 0 ∧ c.attempts = 0 ↔ ∀ as c', (∀ a ∈ as, a.isConnect = false) →
      AllEndNormally (fun _ => true) c (.close [⟨.text, ['4', '1']⟩] :: as) →
      run (fun _ => true) c (.close [⟨.text, ['4', '1']⟩] :: as) = some c' →
      ∃ es, c'.effects = c.effects ++ es ∧ ∀ e ∈ es, e.isEnding = true) := by
  have hRun : run (fun _ => true) (create .initial)
      [.connect "ws://localhost:8080" "", .handler, .opened] = some _ := rfl
  exact ⟨_, hRun, close_final_iff hRun rfl [⟨.text, ['4', '1']⟩]⟩

/-! ### A rejected URI -/

/-- The client is not connecting, and takes itself to be. -/
structure Stuck (c : Client) : Prop where
  idle : c.At .idle
  state : c.conState = .opening
  thread : c.networkThread = true
  joining : c.joining = none

theorem At.con_idle (h : c.At .idle) : c.con = false := Bool.toNat_eq_zero.1 h.con

theorem At.closeImpl_idle (h : c.At .idle) (code : Nat) : c.closeImpl code = c := by
  have hTimer : c.reconnTimer = false := Bool.toNat_eq_zero.1 h.timer
  have hCon := h.con_idle
  obtain ⟨conState, con, sid, baseUrl, queryString, reconnection, reconnMade, reconnTimer,
    networkThread, looping, handlers, attempts, connections, joining, effects⟩ := c
  simp only at hTimer hCon
  subst hTimer hCon
  rfl

theorem At.ping_idle (h : c.At .idle) : c.ping = c := by
  rw [ping, h.con_idle]
  rfl

theorem Stuck.step (h : Stuck c) (hMoves : Moves valid c a c') (hClose : a.isClose = false) :
    Stuck c' ∧ c'.effects = c.effects := by
  obtain ⟨hIdle, hState, hThread, hJoining⟩ := h
  have hConnections : c.connections = [] := List.length_eq_zero_iff.1 hIdle.connections
  cases hMoves with
  | ignored => exact ⟨⟨{ hIdle with timer := rfl }, hState, hThread, hJoining⟩, rfl⟩
  | joins _ hOther => rcases hOther with hOther | hOther <;> rw [hState] at hOther <;> cases hOther
  | starts hNone =>
    rw [hThread] at hNone
    cases hNone
  | closes hAction _ => rcases hAction with rfl | rfl <;> cases hClose
  | sends payload =>
    exact ⟨⟨hIdle.post [.sendImpl payload] (by simp [Handler.isConnect])
      (by simp [Handler.isTimeout]), hState, hThread, hJoining⟩, rfl⟩
  | sets => exact ⟨⟨{ hIdle with }, hState, hThread, hJoining⟩, rfl⟩
  | joinedConnect _ hJoin | joinedClose _ hJoin =>
    rw [hJoining] at hJoin
    cases hJoin
  | attempts hHandlers | rejects hHandlers => cases (hIdle.takeConnect hHandlers).1
  | reattempts hHandlers | rerejects hHandlers | late hHandlers =>
    cases (hIdle.takeTimeout hHandlers).1
  | closeHandler hHandlers =>
    have hTaken := hIdle.take hHandlers rfl rfl
    rw [hTaken.closeImpl_idle]
    exact ⟨⟨hTaken, hState, hThread, hJoining⟩, rfl⟩
  | sendHandler hHandlers =>
    have hTaken := hIdle.take hHandlers rfl rfl
    rw [sendImpl_of_ne (by simp [hState])]
    exact ⟨⟨hTaken, hState, hThread, hJoining⟩, rfl⟩
  | sendHere payload =>
    rw [sendImpl_of_ne (by simp [hState])]
    exact ⟨⟨hIdle, hState, hThread, hJoining⟩, rfl⟩
  | expired hTimer => cases (hIdle.timerEnds hTimer).1
  | opened hAttempts | failed hAttempts => cases (hIdle.answered hAttempts).1
  | pings =>
    rw [hIdle.ping_idle]
    exact ⟨⟨hIdle, hState, hThread, hJoining⟩, rfl⟩
  | alters hk | ended hk =>
    rw [hConnections] at hk
    cases hk
  | handshake _ hHears => exact absurd hConnections (connections_of_hears hHears)
  | aborts =>
    rw [hIdle.closeImpl_idle]
    exact ⟨⟨hIdle, hState, hThread, hJoining⟩, rfl⟩
  | runEnds =>
    exact ⟨⟨{ hIdle with looping := .inl rfl, thread := fun hLooping => by cases hLooping },
      hState, hThread, hJoining⟩, rfl⟩

/-- Once websocketpp makes no connection of the URI, the client stays in `con_opening`: until a call
of `close` no further call of `connect` does anything, for whatever URI. -/
theorem rejected_uri_stuck {r : Reconnection} {as₀ as : List Action}
    (hRun : run valid (create r) as₀ = some c) {uri queryString : String} {hs : List Handler}
    (hHandlers : c.handlers = .connectImpl uri queryString :: hs) (hValid : valid uri = false)
    (hState : c.conState = .opening) (hJoin : c.joining = none)
    (hClose : ∀ a ∈ as, a.isClose = false) (hAfter : run valid c (.handler :: as) = some c') :
    c'.conState = .opening ∧ c'.effects = c.effects ++ [.failListener] := by
  obtain ⟨p, hAt, -⟩ := run_phase hRun
  obtain ⟨rfl, hIdle⟩ := hAt.takeConnect hHandlers
  have hLoop := hAt.isLooping (by decide)
  obtain ⟨m, hFirst, hRest⟩ := Concurrent.run_cons.1 hAfter
  rw [step_handler hLoop hHandlers, runHandler, connectImpl, hValid] at hFirst
  cases hFirst
  have hStuck : Stuck (({ c with handlers := hs } : Client).emit [.failListener]) :=
    ⟨hIdle.emit _, hState, hAt.thread hLoop, hJoin⟩
  have h := Concurrent.run_invariant_of_mem
    (P := fun m => Stuck m ∧ m.effects = c.effects ++ [.failListener])
    (fun m a m' hm ha hStep => by
      obtain ⟨hStuck', hEffects⟩ := hm.1.step (step_moves hStep) ha
      exact ⟨hStuck', hEffects.trans hm.2⟩) hClose ⟨hStuck, rfl⟩ hRest
  exact ⟨h.1.state, h.2⟩

/-- A URI without a host is rejected, and the next call of `connect` is ignored. -/
theorem rejected_uri_stuck_retry : ∃ c c' : Client,
    run (fun uri => uri == "ws://localhost:8080") (create .initial) [.connect "localhost" ""] =
      some c ∧
    run (fun uri => uri == "ws://localhost:8080") c
      (.handler :: [.connect "ws://localhost:8080" ""]) = some c' ∧
    c'.conState = .opening ∧ c'.effects = c.effects ++ [.failListener] := by
  have hRun : run (fun uri => uri == "ws://localhost:8080") (create .initial)
      [.connect "localhost" ""] = some _ := rfl
  refine ⟨_, _, hRun, rfl, ?_⟩
  have hClose : ∀ a ∈ [(.connect "ws://localhost:8080" "" : Action)], a.isClose = false := by
    simp [Action.isClose]
  exact rejected_uri_stuck hRun rfl (by decide) rfl rfl hClose rfl

end Client

end Sio
