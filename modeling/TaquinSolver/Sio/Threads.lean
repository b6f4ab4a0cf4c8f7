import Mathlib.Algebra.BigOperators.Group.Finset.Basic
import Mathlib.Algebra.Order.Group.Multiset
import Mathlib.Tactic.Abel
import TaquinSolver.Concurrent.Runs
import TaquinSolver.Sio.Delivery

/-! The queue of a socket under several threads.  Any thread can call `send_packet`; the thread of
the network also runs `on_connected` and `on_disconnect`.  A step is what happens between two points
where the mutex of the queue is free: the flag `m_connected` is read and written without it. -/

namespace Sio

namespace Threads

variable {ι P : Type}

/-- Where a thread is. -/
inductive Thread (P : Type)
  | idle
  /-- In `send_packet`, before the test of `m_connected`. -/
  | testing (p : P)
  /-- It saw no connection, and is about to put the packet into the queue. -/
  | pushing (p : P)
  /-- In the loop that empties the queue, with the packet of `send_packet` if it is there. -/
  | draining (own : Option P)
  /-- It took `front` out of the queue, and is about to send it. -/
  | sending (front : P) (own : Option P)
  /-- It saw the queue empty, and is about to send its packet. -/
  | sendingOwn (p : P)
  /-- In `on_disconnect`, before the queue is emptied. -/
  | clearing

/-- The packets that a thread holds. -/
def Thread.held : Thread P → Multiset P
  | .idle | .clearing => 0
  | .testing p | .pushing p | .sendingOwn p => {p}
  | .draining own => ↑own.toList
  | .sending front own => {front} + ↑own.toList

/-- The thread will look at the queue again. -/
def Thread.IsDraining : Thread P → Prop
  | .draining _ | .sending _ _ => True
  | .idle | .testing _ | .pushing _ | .sendingOwn _ | .clearing => False

/-- The queue and the threads, with the packets handed over, sent and thrown away so far. -/
structure State (ι P : Type) where
  connected : Bool
  queue : List P
  thread : ι → Thread P
  handed : List P
  sent : List P
  discarded : List P

inductive Action (ι P : Type)
  | call (i : ι) (p : P)
  | proceed (i : ι)
  | connect (i : ι)
  | disconnect (i : ι)

/-- Nothing happened yet. -/
def start : State ι P := ⟨false, [], fun _ => .idle, [], [], []⟩

variable [DecidableEq ι]

/-- The next step of a thread in a call. -/
def proceed (s : State ι P) (i : ι) : Option (State ι P) :=
  match s.thread i with
  | .idle => none
  | .testing p =>
    some { s with
      thread := Function.update s.thread i
        (if s.connected then .draining (some p) else .pushing p) }
  | .pushing p =>
    some { s with queue := s.queue ++ [p], thread := Function.update s.thread i .idle }
  | .draining own =>
    match s.queue, own with
    | front :: queue, own =>
      some { s with queue := queue, thread := Function.update s.thread i (.sending front own) }
    | [], some p => some { s with thread := Function.update s.thread i (.sendingOwn p) }
    | [], none => some { s with thread := Function.update s.thread i .idle }
  | .sending front own =>
    some { s with
      sent := s.sent ++ [front], thread := Function.update s.thread i (.draining own) }
  | .sendingOwn p =>
    some { s with sent := s.sent ++ [p], thread := Function.update s.thread i .idle }
  | .clearing =>
    some { s with
      queue := [], discarded := s.discarded ++ s.queue, thread := Function.update s.thread i .idle }

/-- A step, for the thread `net` of the network.  A call starts only in a thread outside a call. -/
def step (net : ι) (s : State ι P) : Action ι P → Option (State ι P)
  | .call i p =>
    match s.thread i with
    | .idle => some { s with
        handed := s.handed ++ [p], thread := Function.update s.thread i (.testing p) }
    | _ => none
  | .proceed i => proceed s i
  | .connect i =>
    match s.thread i with
    | .idle =>
      if i ≠ net then none
      else if s.connected then some s
      else some { s with
        connected := true, thread := Function.update s.thread i (.draining none) }
    | _ => none
  | .disconnect i =>
    match s.thread i with
    | .idle =>
      if i ≠ net then none
      else if s.connected then some { s with
        connected := false, thread := Function.update s.thread i .clearing }
      else some s
    | _ => none

def run (net : ι) (s : State ι P) (as : List (Action ι P)) : Option (State ι P) :=
  as.foldlM (step net) s

/-- What the steps do. -/
inductive Steps (net : ι) (s : State ι P) : Action ι P → State ι P → Prop
  | call {i : ι} (p : P) (h : s.thread i = .idle) : Steps net s (.call i p)
      { s with handed := s.handed ++ [p], thread := Function.update s.thread i (.testing p) }
  | sees {i : ι} {p : P} (h : s.thread i = .testing p) (hConnected : s.connected = true) :
      Steps net s (.proceed i) { s with thread := Function.update s.thread i (.draining (some p)) }
  | misses {i : ι} {p : P} (h : s.thread i = .testing p) (hConnected : s.connected = false) :
      Steps net s (.proceed i) { s with thread := Function.update s.thread i (.pushing p) }
  | push {i : ι} {p : P} (h : s.thread i = .pushing p) : Steps net s (.proceed i)
      { s with queue := s.queue ++ [p], thread := Function.update s.thread i .idle }
  | take {i : ι} {own : Option P} {front : P} {queue : List P} (h : s.thread i = .draining own)
      (hQueue : s.queue = front :: queue) : Steps net s (.proceed i)
      { s with queue := queue, thread := Function.update s.thread i (.sending front own) }
  | found {i : ι} {p : P} (h : s.thread i = .draining (some p)) (hQueue : s.queue = []) :
      Steps net s (.proceed i) { s with thread := Function.update s.thread i (.sendingOwn p) }
  | leave {i : ι} (h : s.thread i = .draining none) (hQueue : s.queue = []) :
      Steps net s (.proceed i) { s with thread := Function.update s.thread i .idle }
  | sendFront {i : ι} {own : Option P} {front : P} (h : s.thread i = .sending front own) :
      Steps net s (.proceed i)
      { s with sent := s.sent ++ [front], thread := Function.update s.thread i (.draining own) }
  | sendOwn {i : ι} {p : P} (h : s.thread i = .sendingOwn p) : Steps net s (.proceed i)
      { s with sent := s.sent ++ [p], thread := Function.update s.thread i .idle }
  | clear {i : ι} (h : s.thread i = .clearing) : Steps net s (.proceed i)
      { s with
        queue := []
        discarded := s.discarded ++ s.queue
        thread := Function.update s.thread i .idle }
  | connect (h : s.thread net = .idle) : Steps net s (.connect net)
      { s with connected := true, thread := Function.update s.thread net (.draining none) }
  | disconnect (h : s.thread net = .idle) : Steps net s (.disconnect net)
      { s with connected := false, thread := Function.update s.thread net .clearing }
  | stay (a : Action ι P) : Steps net s a s

theorem proceed_steps {s s' : State ι P} {i : ι} (net : ι) (h : proceed s i = some s') :
    Steps net s (.proceed i) s' := by
  unfold proceed at h
  split at h
  · cases h
  · cases h
    split
    · exact .sees (by assumption) (by assumption)
    · exact .misses (by assumption) (by simpa using ‹¬s.connected = true›)
  · cases h
    exact .push (by assumption)
  · split at h <;> cases h
    · exact .take (by assumption) (by assumption)
    · exact .found (by assumption) (by assumption)
    · exact .leave (by assumption) (by assumption)
  · cases h
    exact .sendFront (by assumption)
  · cases h
    exact .sendOwn (by assumption)
  · cases h
    exact .clear (by assumption)

theorem step_steps {net : ι} {s s' : State ι P} {a : Action ι P} (h : step net s a = some s') :
    Steps net s a s' := by
  cases a with
  | proceed i => exact proceed_steps net h
  | call i p =>
    rw [step] at h
    split at h <;> cases h
    exact .call p (by assumption)
  | connect i =>
    rw [step] at h
    split at h
    · split at h
      · cases h
      rename_i hIdle hNet
      rw [not_not] at hNet
      subst hNet
      split at h <;> cases h
      · exact .stay _
      · exact .connect hIdle
    · cases h
  | disconnect i =>
    rw [step] at h
    split at h
    · split at h
      · cases h
      rename_i hIdle hNet
      rw [not_not] at hNet
      subst hNet
      split at h <;> cases h
      · exact .disconnect hIdle
      · exact .stay _
    · cases h

/-! ### Nothing is lost and nothing is sent twice -/

section Conserved

variable [Fintype ι]

/-- Each packet handed over is sent, thrown away, in the queue or held by a thread. -/
def Conserved (s : State ι P) : Prop :=
  (↑s.handed : Multiset P) = ↑s.sent + ↑s.discarded + ↑s.queue + ∑ i, (s.thread i).held

theorem sum_update (thread : ι → Thread P) (i : ι) (t : Thread P) :
    ∑ j, (Function.update thread i t j).held + (thread i).held =
      ∑ j, (thread j).held + t.held := by
  have hOther : ∑ j ∈ Finset.univ.erase i, (Function.update thread i t j).held =
      ∑ j ∈ Finset.univ.erase i, (thread j).held :=
    Finset.sum_congr rfl fun j hj => by rw [Function.update_of_ne (Finset.ne_of_mem_erase hj)]
  rw [← Finset.add_sum_erase _ _ (Finset.mem_univ i),
    ← Finset.add_sum_erase _ (fun j => (thread j).held) (Finset.mem_univ i), hOther,
    Function.update_self]
  abel

/-- When one thread moves, what it holds changes by what is handed over, sent, thrown away or put
into the queue. -/
theorem Conserved.move {s s' : State ι P} (h : Conserved s) {i : ι} {t : Thread P}
    (hThread : s'.thread = Function.update s.thread i t)
    (hBalance : (↑s'.handed : Multiset P) + (↑s.sent + ↑s.discarded + ↑s.queue) +
        (s.thread i).held =
      ↑s.handed + (↑s'.sent + ↑s'.discarded + ↑s'.queue) + t.held) : Conserved s' := by
  unfold Conserved at h ⊢
  rw [hThread]
  have hSum := sum_update s.thread i t
  have hAll : (↑s'.handed : Multiset P) + ((s.thread i).held + ↑s.handed) =
      (↑s'.sent + ↑s'.discarded + ↑s'.queue + ∑ j, (Function.update s.thread i t j).held) +
        ((s.thread i).held + ↑s.handed) := by
    calc (↑s'.handed : Multiset P) + ((s.thread i).held + ↑s.handed)
        = ↑s'.handed + (↑s.sent + ↑s.discarded + ↑s.queue) + (s.thread i).held +
            ∑ j, (s.thread j).held := by
          rw [h]
          abel
      _ = ↑s.handed + (↑s'.sent + ↑s'.discarded + ↑s'.queue) +
            (∑ j, (s.thread j).held + t.held) := by
          rw [hBalance]
          abel
      _ = _ := by
          rw [← hSum]
          abel
  exact add_right_cancel hAll

theorem Conserved.step {net : ι} {s s' : State ι P} {a : Action ι P} (h : Conserved s)
    (hStep : Steps net s a s') : Conserved s' := by
  cases hStep with
  | call p hThread =>
    apply h.move rfl
    rw [hThread, ← Multiset.coe_add]
    simp only [Thread.held, Multiset.coe_singleton]
    abel
  | sees hThread | misses hThread =>
    apply h.move rfl
    rw [hThread]
    rfl
  | push hThread | sendOwn hThread =>
    apply h.move rfl
    rw [hThread, ← Multiset.coe_add]
    simp only [Thread.held, Multiset.coe_singleton]
    abel
  | take hThread hQueue =>
    apply h.move rfl
    rw [hThread, hQueue, ← Multiset.cons_coe, ← Multiset.singleton_add]
    simp only [Thread.held]
    abel
  | found hThread hQueue | leave hThread hQueue =>
    apply h.move rfl
    rw [hThread]
    rfl
  | sendFront hThread =>
    apply h.move rfl
    rw [hThread, ← Multiset.coe_add]
    simp only [Thread.held, Multiset.coe_singleton]
    abel
  | clear hThread =>
    apply h.move rfl
    rw [hThread, ← Multiset.coe_add]
    simp only [Thread.held, Multiset.coe_nil]
    abel
  | connect hThread | disconnect hThread =>
    apply h.move rfl
    rw [hThread]
    rfl
  | stay => exact h

omit [DecidableEq ι] in
theorem conserved_start : Conserved (start : State ι P) := by
  simp [Conserved, start, Thread.held]

/-- However the threads take turns, each packet handed over is in one place: sent, thrown away, in
the queue or in a thread; so once no thread is in a call, it is sent or thrown away or it waits. -/
theorem packets_conserved {net : ι} {s : State ι P} {as : List (Action ι P)}
    (hRun : run net start as = some s) :
    Conserved s ∧ ((∀ i, s.thread i = .idle) →
      s.handed.Perm (s.sent ++ s.discarded ++ s.queue)) := by
  have h := Concurrent.run_invariant_of_mem (P := Conserved) (C := fun _ => True)
    (fun _ _ _ h _ hStep => h.step (step_steps hStep)) (fun _ _ => trivial) conserved_start hRun
  refine ⟨h, fun hIdle => ?_⟩
  have hNone : ∑ i, (s.thread i).held = 0 :=
    Finset.sum_eq_zero fun i _ => by
      rw [hIdle i]
      rfl
  rw [Conserved, hNone, add_zero, Multiset.coe_add, Multiset.coe_add] at h
  exact Multiset.coe_eq_coe.1 h

end Conserved

/-- A packet of one thread that is sent by another one. -/
theorem packets_conserved_bool : ∃ s : State Bool Char,
    run true start [.call false 'p', .proceed false, .proceed false, .connect true, .proceed true,
      .proceed true] = some s ∧
    Conserved s ∧ ((∀ i, s.thread i = .idle) →
      s.handed.Perm (s.sent ++ s.discarded ++ s.queue)) :=
  have hRun : run true (start : State Bool Char) [.call false 'p', .proceed false, .proceed false,
      .connect true, .proceed true, .proceed true] = some _ := rfl
  ⟨_, hRun, packets_conserved hRun⟩

/-! ### Packets that are left behind -/

/-- A packet is put into the queue of a socket that is connected by now. -/
def late (s : State ι P) : Action ι P → Bool
  | .proceed i =>
    match s.thread i with
    | .pushing _ => s.connected
    | _ => false
  | _ => false

/-- No packet is put into the queue too late in a run. -/
def onTime (net : ι) (s : State ι P) : List (Action ι P) → Bool
  | [] => true
  | a :: as =>
    !late s a &&
      match step net s a with
      | some s' => onTime net s' as
      | none => true

/-- While there is a connection, a thread will look at what is in the queue. -/
def Watched (s : State ι P) : Prop :=
  s.connected = true → s.queue = [] ∨ ∃ i, (s.thread i).IsDraining

theorem Watched.update {s s' : State ι P} (h : Watched s) {i : ι} {t : Thread P}
    (hThread : s'.thread = Function.update s.thread i t) (hNot : ¬(s.thread i).IsDraining)
    (hConnected : s'.connected = s.connected) (hQueue : s'.queue = s.queue) : Watched s' := by
  intro hYes
  rw [hConnected] at hYes
  rcases h hYes with hEmpty | ⟨j, hj⟩
  · exact .inl (hQueue.trans hEmpty)
  · have hne : j ≠ i := by
      rintro rfl
      exact hNot hj
    exact .inr ⟨j, by rwa [hThread, Function.update_of_ne hne]⟩

theorem Watched.step {net : ι} {s s' : State ι P} {a : Action ι P} (h : Watched s)
    (hStep : Steps net s a s') (hTime : late s a = false) : Watched s' := by
  cases hStep with
  | call p hThread => exact h.update rfl (by rw [hThread]; exact id) rfl rfl
  | @sees i p hThread => exact fun _ => .inr ⟨i, by simp [Thread.IsDraining]⟩
  | misses hThread hNo =>
    intro hYes
    rw [show s.connected = true from hYes] at hNo
    cases hNo
  | @push i p hThread =>
    intro hYes
    rw [late, hThread] at hTime
    exact absurd (hTime.symm.trans hYes) (by decide)
  | @take i own front queue hThread => exact fun _ => .inr ⟨i, by simp [Thread.IsDraining]⟩
  | found _ hQueue | leave _ hQueue => exact fun _ => .inl hQueue
  | @sendFront i => exact fun _ => .inr ⟨i, by simp [Thread.IsDraining]⟩
  | sendOwn hThread => exact h.update rfl (by rw [hThread]; exact id) rfl rfl
  | clear => exact fun _ => .inl rfl
  | connect => exact fun _ => .inr ⟨net, by simp [Thread.IsDraining]⟩
  | disconnect => exact fun hYes => by cases hYes
  | stay => exact h

theorem late_of_onTime {net : ι} {s m : State ι P} {as₁ as₂ : List (Action ι P)}
    {a : Action ι P} (h : onTime net s (as₁ ++ a :: as₂) = true)
    (hRun : run net s as₁ = some m) : late m a = false := by
  induction as₁ generalizing s with
  | nil =>
    cases hRun
    rw [List.nil_append, onTime, Bool.and_eq_true, Bool.not_eq_true'] at h
    exact h.1
  | cons b as₁ ih =>
    obtain ⟨s₁, hStep, hRest⟩ := Concurrent.run_cons.1 hRun
    rw [List.cons_append, onTime, hStep, Bool.and_eq_true] at h
    exact ih h.2 hRest

/-- When no packet is put into the queue too late, none is left there: a socket that is connected
and in no call has an empty queue. -/
theorem nothing_left_behind {net : ι} {s : State ι P} {as : List (Action ι P)}
    (hTime : onTime net start as = true) (hRun : run net start as = some s)
    (hIdle : ∀ i, s.thread i = .idle) (hConnected : s.connected = true) : s.queue = [] := by
  have hStart : Watched (start : State ι P) := fun h => by cases h
  have hWatched : Watched s := Concurrent.run_invariant (C := fun m a => late m a = false)
    (fun _ _ _ h hLate hStep => Watched.step h (step_steps hStep) hLate)
    (fun _ _ _ _ hEq hPre => late_of_onTime (hEq ▸ hTime) hPre) hStart hRun
  rcases hWatched hConnected with h | ⟨i, hi⟩
  · exact h
  · rw [hIdle i] at hi
    exact hi.elim

/-- The packet is put into the queue before the connection. -/
theorem nothing_left_behind_bool : ∃ s : State Bool Char,
    run true start [.call false 'p', .proceed false, .proceed false, .connect true, .proceed true,
      .proceed true, .proceed true] = some s ∧ s.queue = [] := by
  have hRun : run true (start : State Bool Char) [.call false 'p', .proceed false, .proceed false,
      .connect true, .proceed true, .proceed true, .proceed true] = some _ := rfl
  refine ⟨_, hRun, nothing_left_behind rfl hRun ?_ rfl⟩
  intro i
  cases i <;> rfl

/-- Two threads are back where they began. -/
theorem update_idle (i j : ι) (t : Thread P) :
    Function.update (Function.update (Function.update (fun _ => Thread.idle) i t) j Thread.idle) i
      Thread.idle = fun _ => Thread.idle := by
  funext k
  by_cases hi : k = i
  · simp [hi]
  · by_cases hj : k = j
    · simp [hj, Function.update_apply]
    · simp [hi, hj]

/-- Both can happen to any packets: one that is put into the queue after the network's thread has
left its loop stays there, and one that the network's thread took out of the queue is overtaken by a
later one of the same sender. -/
theorem packets_raced {net i : ι} (h : i ≠ net) (p q : P) :
    (∃ as s, run net start as = some s ∧ (∀ j, s.thread j = .idle) ∧ s.connected = true ∧
      s.queue = [p] ∧ s.sent = []) ∧
    ∃ as s, run net start as = some s ∧ (∀ j, s.thread j = .idle) ∧ s.handed = [p, q] ∧
      s.sent = [q, p] := by
  constructor
  · refine ⟨[.call i p, .proceed i, .connect net, .proceed net, .proceed i],
      ⟨true, [p], fun _ => .idle, [p], [], []⟩, ?_, fun _ => rfl, rfl, rfl, rfl⟩
    simp [run, start, step, proceed, h, h.symm, update_idle]
  · refine ⟨[.call i p, .proceed i, .proceed i, .connect net, .proceed net, .call i q, .proceed i,
        .proceed i, .proceed i, .proceed net, .proceed net],
      ⟨true, [], fun _ => .idle, [p, q], [q, p], []⟩, ?_, fun _ => rfl, rfl, rfl⟩
    simp [run, start, step, proceed, h, h.symm, update_idle]

/-! ### Calls that do not overlap -/

/-- A thread alone in its loop sends the queue. -/
theorem drain_alone (net i : ι) (own : Option P) (s : State ι P)
    (hThread : s.thread i = .draining own) :
    ∃ n, ∀ as, run net s (List.replicate n (.proceed i) ++ as) =
      run net { s with queue := [], sent := s.sent ++ s.queue } as := by
  obtain ⟨connected, queue, thread, handed, sent, discarded⟩ := s
  induction queue generalizing sent with
  | nil => exact ⟨0, fun as => by simp⟩
  | cons front queue ih =>
    obtain ⟨n, hn⟩ := ih (sent ++ [front]) hThread
    have hTake :
        step net ⟨connected, front :: queue, thread, handed, sent, discarded⟩ (.proceed i) =
          some ⟨connected, queue, Function.update thread i (.sending front own), handed, sent,
            discarded⟩ := by
      simp only at hThread
      simp [step, proceed, hThread]
    have hSend : step net ⟨connected, queue, Function.update thread i (.sending front own), handed,
        sent, discarded⟩ (.proceed i) =
        some ⟨connected, queue, thread, handed, sent ++ [front], discarded⟩ := by
      simp only at hThread
      simp [step, proceed, ← hThread]
    refine ⟨n + 2, fun as => ?_⟩
    rw [List.replicate_succ, List.replicate_succ, List.cons_append, List.cons_append, run,
      Concurrent.run_of_step hTake, Concurrent.run_of_step hSend]
    refine (hn as).trans ?_
    simp

/-- The threads' queue and flag are those of the socket. -/
structure Agrees {δ A L : Type} (s : State ι (Packet δ)) (sk : Socket δ A L) : Prop where
  client : sk.client = true
  connected : s.connected = sk.connected
  queue : s.queue = sk.packetQueue

section Alone

variable {δ A L : Type} {net : ι} {s : State ι (Packet δ)} {sk : Socket δ A L}

/-- The thread `i`, which starts a call by `a` and is not interrupted, does to the queue what the
socket does, and sends and throws away the same packets in the same order. -/
def DoesAlone (net i : ι) (s : State ι (Packet δ)) (a : Action ι (Packet δ))
    (r : Socket δ A L × List (Call δ A L)) : Prop :=
  ∃ as s', (∀ b ∈ as, b = .proceed i) ∧ run net s (a :: as) = some s' ∧ s'.thread = s.thread ∧
    Agrees s' r.1 ∧ s'.sent = s.sent ++ Call.sent r.2 ∧
    s'.discarded = s.discarded ++ Call.discarded r.2

theorem sendPacket_alone (h : Agrees s sk) {i : ι} (hIdle : s.thread i = .idle) (p : Packet δ) :
    DoesAlone net i s (.call i p) (sk.sendPacket p) := by
  have hCall : step net s (.call i p) = some { s with
      handed := s.handed ++ [p], thread := Function.update s.thread i (.testing p) } := by
    simp [step, hIdle]
  have hBack : ∀ t, Function.update (Function.update s.thread i t) i .idle = s.thread := fun t => by
    rw [Function.update_idem, ← hIdle, Function.update_eq_self]
  unfold Socket.sendPacket
  rw [if_pos h.client]
  by_cases hConnected : sk.connected = true
  · rw [if_pos hConnected]
    have hYes : s.connected = true := h.connected.trans hConnected
    obtain ⟨n, hn⟩ := drain_alone net i (some p) { s with
      handed := s.handed ++ [p], thread := Function.update s.thread i (.draining (some p)) }
      (Function.update_self _ _ _)
    have hTest : step net { s with
          handed := s.handed ++ [p],
          thread := Function.update s.thread i (.testing p) } (.proceed i) =
        some { s with
          handed := s.handed ++ [p],
          thread := Function.update s.thread i (.draining (some p)) } := by
      simp [step, proceed, hYes]
    refine ⟨.proceed i :: (List.replicate n (.proceed i) ++ [.proceed i, .proceed i]), { s with
      handed := s.handed ++ [p], queue := [], sent := s.sent ++ s.queue ++ [p] }, ?_, ?_, rfl,
      ⟨h.client, h.connected, rfl⟩, ?_, ?_⟩
    · intro a ha
      simp only [List.mem_cons, List.mem_append, List.mem_replicate, List.not_mem_nil] at ha
      tauto
    · rw [run, Concurrent.run_of_step hCall, Concurrent.run_of_step hTest]
      refine (hn _).trans ?_
      simp [run, step, proceed, hBack]
    · have hSent : Call.sent (.sendPacket p ::
          (sk.packetQueue ++ [p]).map (Call.send (A := A) (L := L))) = sk.packetQueue ++ [p] :=
        Call.sent_sends _
      rw [hSent, ← h.queue, ← List.append_assoc]
    · exact (List.append_nil _).symm.trans
        (congrArg (s.discarded ++ ·) (Call.discarded_sends (sk.packetQueue ++ [p])).symm)
  · rw [if_neg hConnected]
    refine ⟨[.proceed i, .proceed i], { s with
      handed := s.handed ++ [p], queue := s.queue ++ [p] }, by simp, ?_, rfl,
      ⟨h.client, h.connected, by rw [h.queue]⟩, (List.append_nil _).symm,
      (List.append_nil _).symm⟩
    have hNo : s.connected = false := by simpa [h.connected] using hConnected
    rw [run, Concurrent.run_of_step hCall]
    simp [step, proceed, hNo, hBack]

theorem onConnected_alone (h : Agrees s sk) (hIdle : s.thread net = .idle) :
    DoesAlone net net s (.connect net) (sk.onConnected []) := by
  unfold Socket.onConnected
  by_cases hConnected : sk.connected = true
  · rw [if_pos hConnected]
    have hYes : s.connected = true := h.connected.trans hConnected
    refine ⟨[], s, by simp, ?_, rfl, h, (List.append_nil _).symm, (List.append_nil _).symm⟩
    simp [run, step, hIdle, hYes]
  · rw [if_neg hConnected]
    have hNo : s.connected = false := by simpa [h.connected] using hConnected
    have hBegin : step net s (.connect net) = some { s with
        connected := true, thread := Function.update s.thread net (.draining none) } := by
      simp [step, hIdle, hNo]
    obtain ⟨n, hn⟩ := drain_alone net net none { s with
      connected := true, thread := Function.update s.thread net (.draining none) }
      (Function.update_self _ _ _)
    have hBack : Function.update s.thread net .idle = s.thread := by
      rw [← hIdle, Function.update_eq_self]
    refine ⟨List.replicate n (.proceed net) ++ [.proceed net], { s with
      connected := true, queue := [], sent := s.sent ++ s.queue }, ?_, ?_, rfl,
      ⟨h.client, rfl, rfl⟩, ?_, ?_⟩
    · intro a ha
      simp only [List.mem_cons, List.mem_append, List.mem_replicate, List.not_mem_nil] at ha
      tauto
    · rw [run, Concurrent.run_of_step hBegin]
      refine (hn _).trans ?_
      simp [run, step, proceed, hBack]
    · have hSent : Call.sent (.socketOpened sk.nsp ::
          ([] ++ sk.packetQueue.map (Call.send (A := A) (L := L)))) = sk.packetQueue :=
        Call.sent_sends _
      exact congrArg (s.sent ++ ·) (h.queue.trans hSent.symm)
    · exact (List.append_nil _).symm.trans
        (congrArg (s.discarded ++ ·) (Call.discarded_sends sk.packetQueue).symm)

theorem onDisconnect_alone (h : Agrees s sk) (hIdle : s.thread net = .idle) :
    DoesAlone net net s (.disconnect net) sk.onDisconnect := by
  unfold Socket.onDisconnect
  by_cases hConnected : sk.connected = true
  · rw [if_pos ⟨h.client, hConnected⟩]
    have hYes : s.connected = true := h.connected.trans hConnected
    have hBack : Function.update s.thread net .idle = s.thread := by
      rw [← hIdle, Function.update_eq_self]
    refine ⟨[.proceed net], { s with
      connected := false, queue := [], discarded := s.discarded ++ s.queue }, by simp, ?_, rfl,
      ⟨h.client, rfl, rfl⟩, (List.append_nil _).symm, ?_⟩
    · simp [run, step, proceed, hIdle, hYes, hBack]
    · simp [Call.discarded, h.queue]
  · rw [if_neg fun hBoth => hConnected hBoth.2]
    have hNo : s.connected = false := by simpa [h.connected] using hConnected
    refine ⟨[], s, by simp, ?_, rfl, h, (List.append_nil _).symm, (List.append_nil _).symm⟩
    simp [run, step, hIdle, hNo]

/-- When calls do not overlap, the threads do to the queue what the socket does: in `send_packet`,
in `on_connected` with a listener that does nothing, and in `on_disconnect`. -/
theorem calls_alone (h : Agrees s sk) (hNet : s.thread net = .idle) {i : ι}
    (hIdle : s.thread i = .idle) (p : Packet δ) :
    DoesAlone net i s (.call i p) (sk.sendPacket p) ∧
      DoesAlone net net s (.connect net) (sk.onConnected []) ∧
      DoesAlone net net s (.disconnect net) sk.onDisconnect :=
  ⟨sendPacket_alone h hIdle p, onConnected_alone h hNet, onDisconnect_alone h hNet⟩

end Alone

/-- A socket that is connected, with a packet that waits. -/
def openSocket : Socket Empty ℕ ℕ :=
  { (Socket.new ['/'] 1 : Socket Empty ℕ ℕ) with connected := true, packetQueue := [.ofFrame 4] }

/-- The socket agrees with two idle threads. -/
theorem calls_alone_bool :
    let s : State Bool (Packet Empty) :=
      { (start : State Bool (Packet Empty)) with connected := true, queue := [.ofFrame 4] }
    DoesAlone true false s (.call false (.ofFrame 4)) (openSocket.sendPacket (.ofFrame 4)) ∧
      DoesAlone true true s (.connect true) (openSocket.onConnected []) ∧
      DoesAlone true true s (.disconnect true) openSocket.onDisconnect :=
  calls_alone ⟨rfl, rfl, rfl⟩ rfl rfl _

end Threads

end Sio
