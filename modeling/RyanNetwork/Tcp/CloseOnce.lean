import RyanNetwork.Tcp.Registration

/-!
# A connection closes at most once

One poll event can lead through several handlers, and each of them may meet a
connection that the one before has closed. The record of a run keeps the worlds in
which `HandleClose` was entered. Only an event with `EPOLLHUP` and `EPOLLPRI` but
without `EPOLLIN` takes a connection through `HandleClose` and then through
`HandleRead`; in every run without such a pair of calls there is at most one entry.
-/
namespace RyanNetwork.Tcp.CloseOnce

open Lib World Callbacks Registration

set_option autoImplicit false

/-- What can happen to an established connection. -/
inductive Act where
  | event (revents : Events) (a : Answers)
  | call (c : Call)
  | callFromOther (c : Call)
  | functor (f : PendingFunctor) (answer : WriteResult) (onRun : List Call)
  | connectDestroyed (onDown : List Call)

/-- The world after the loop has taken a functor out of the queue. -/
def dequeue (w : World) (f : PendingFunctor) : World := { w with pending := w.pending.erase f }

/-- Events come only while the descriptor is watched, functors out of the queue in any
order; the user calls `Send`, `Shutdown` and `ForceClose`. -/
def Enabled (w : World) : Act → Prop
  | .event _ a => Watched w ∧ (∀ c ∈ a.onMessage, Listed c) ∧ ∀ c ∈ a.onDown, Listed c
  | .call c => Listed c
  | .callFromOther c => Listed c
  | .functor f _ onRun => f ∈ w.pending ∧ ∀ c ∈ onRun, Listed c
  | .connectDestroyed onDown => ∀ c ∈ onDown, Listed c

def perform (w : World) : Act → Except Fault World
  | .event revents a => w.handleEvent revents a
  | .call c => w.call c
  | .callFromOther c => .ok (w.callFromOther c)
  | .functor f answer onRun => (dequeue w f).runFunctor answer onRun f
  | .connectDestroyed onDown => w.connectDestroyed onDown

/-- The first part of `HandleEventWithGuard`. -/
def hangup (w : World) (revents : Events) (a : Answers) : Except Fault World :=
  w.onlyIf (revents.epollhup && !revents.epollin) (·.handleClose a.onDown)

/-- The worlds in which an act enters `HandleClose`, also one that then fails. -/
def entersClose (w : World) : Act → List World
  | .event revents a =>
    (if revents.epollhup && !revents.epollin then [w] else []) ++
      match hangup w revents a with
      | .ok u =>
        if (revents.epollin || revents.epollpri) && a.read = .received [] then [u] else []
      | .error _ => []
  | .functor .forceCloseInLoop _ _ => if w.isOpen then [dequeue w .forceCloseInLoop] else []
  | _ => []

/-- The worlds in which an act calls `message_callback_`. -/
def callsMessage (w : World) : Act → List World
  | .event revents a =>
    match hangup w revents a, a.read with
    | .ok u, .received (x :: data) =>
      if revents.epollin || revents.epollpri then
        match u.conn.inputBuffer.readFd (.received (x :: data)) with
        | .ok b => [u.setInput b]
        | .error _ => []
      else []
    | _, _ => []
  | _ => []

/-- No event closes the connection for `EPOLLHUP` and then reads for `EPOLLPRI`, unless
`readv` fails. -/
def Apart : Act → Prop
  | .event revents a =>
    revents.epollhup = true → revents.epollin = false → revents.epollpri = true →
      ∃ errno, a.read = .failed errno
  | _ => True

/-- A world with the entries into `HandleClose` so far. -/
def Step (s : World × List World) (a : Act) (t : World × List World) : Prop :=
  Enabled s.1 a ∧ perform s.1 a = .ok t.1 ∧ t.2 = s.2 ++ entersClose s.1 a

/-- No call of `message_callback_` comes after one of `close_callback_`. -/
def Silent (trace : List Effect) : Prop :=
  trace.Pairwise fun e f => e = .closeCallback → f ≠ .messageCallback

theorem silent_of_zero {trace : List Effect} (h : closeCalls trace = 0) : Silent trace := by
  apply List.pairwise_of_forall_mem_list
  intro e he f _ hclose
  subst hclose
  exact absurd he (List.count_eq_zero.mp h)

theorem silent_append {trace : List Effect} {e : Effect} (h : Silent trace)
    (he : e ≠ .messageCallback) : Silent (trace ++ [e]) := by
  refine List.pairwise_append.mpr ⟨h, List.pairwise_singleton .., ?_⟩
  intro d _ f hf _
  rw [List.mem_singleton.mp hf]
  exact he

/-- Disabled for good: whatever took the connection down, nothing brings it back. -/
structure Over (w : World) : Prop where
  closed : w.conn.state = .kDisconnected
  noEvent : w.conn.channel.events = Events.kNoneEvent
  unwatched : ¬Watched w
  queued : ∀ f ∈ w.pending, KeepsReading f
  silent : Silent w.trace

theorem up_of_alive {w : World} (ha : Alive w) (hz : closeCalls w.trace = 0) : Up w := by
  rcases ha with hu | hd
  · exact hu
  · have hone := hd.closes
    omega

theorem up_open {w : World} (hu : Up w) : Open w := ⟨hu.isOpen, fun _ => hu.index, hu.closes⟩

theorem calls_up {w w' : World} {cs : List Call} (hu : Up w) (hl : ∀ c ∈ cs, Listed c)
    (h : w.calls cs = .ok w') : Up w' :=
  up_of_alive (calls_alive (Or.inl hu) hl h) (calls_open (up_open hu) h).closes

theorem handleWrite_up {w w' : World} {answer : WriteResult} (hu : Up w)
    (h : w.handleWrite answer = .ok w') : Up w' :=
  up_of_alive (handleWrite_alive (Or.inl hu) h) (handleWrite_open (up_open hu) h).closes

/-- `HandleClose` ends with the call of `close_callback_`. -/
theorem handleClose_trace {w w' : World} {onDown : List Call}
    (h : w.handleClose onDown = .ok w') : ∃ t, w'.trace = t ++ [.closeCallback] := by
  unfold World.handleClose at h
  split at h
  · obtain ⟨v, -, h⟩ := bind_ok h
    obtain ⟨u, -, h⟩ := bind_ok h
    cases h
    exact ⟨u.trace, emit_trace ..⟩
  · cases h

theorem handleClose_over {w w' : World} {onDown : List Call} (hl : ∀ c ∈ onDown, Listed c)
    (hu : Up w) (h : w.handleClose onDown = .ok w') : Over w' ∧ closeCalls w'.trace = 1 := by
  have hc := handleClose_closed hl hu h
  obtain ⟨t, ht⟩ := handleClose_trace h
  refine ⟨⟨hc.closed, hc.noEvent, not_not_intro hc.unwatched, hc.queued, ?_⟩, hc.closes⟩
  rw [ht]
  refine silent_append (silent_of_zero ?_) (by simp)
  have hone := hc.closes
  rw [ht, closeCalls, List.count_append, List.count_singleton_self] at hone
  exact Nat.succ.inj hone

/-! ## One poll event -/

/-- After a close for `EPOLLHUP` nothing is read: without `EPOLLIN` only `EPOLLPRI` leads
to `HandleRead`. -/
theorem not_read_after_hangup {revents : Events} {a : Answers} (hs : Apart (.event revents a))
    (hb : (revents.epollhup && !revents.epollin) = true)
    (hr : (revents.epollin || revents.epollpri) = true) : ∃ errno, a.read = .failed errno := by
  rw [Bool.and_eq_true, Bool.not_eq_true'] at hb
  rw [hb.2, Bool.false_or] at hr
  exact hs hb.1 hb.2 hr

theorem entersClose_of_hangup {w : World} {revents : Events} {a : Answers}
    (hs : Apart (.event revents a)) (hb : (revents.epollhup && !revents.epollin) = true) :
    entersClose w (.event revents a) = [w] := by
  have hno : ((revents.epollin || revents.epollpri) && a.read = .received []) = false := by
    cases hr : revents.epollin || revents.epollpri with
    | false => rfl
    | true =>
      obtain ⟨errno, he⟩ := not_read_after_hangup hs hb hr
      simp [he]
  simp only [entersClose, hb, hno]
  cases hangup w revents a with
  | ok u => rfl
  | error e => rfl

theorem hangup_skipped {w : World} {revents : Events} {a : Answers}
    (hb : (revents.epollhup && !revents.epollin) = false) : hangup w revents a = .ok w := by
  simp only [hangup, onlyIf, hb]
  rfl

theorem entersClose_of_skipped {w : World} {revents : Events} {a : Answers}
    (hb : (revents.epollhup && !revents.epollin) = false) :
    entersClose w (.event revents a) =
      if (revents.epollin || revents.epollpri) && a.read = .received [] then [w] else [] := by
  simp only [entersClose, hb, hangup_skipped hb]
  rfl

/-- `HandleRead` on a connection that is up closes it exactly when `readv` answers zero. -/
theorem handleRead_up {w w' : World} {answer : Buffer.ReadResult} {onMessage onDown : List Call}
    (hu : Up w) (hm : ∀ c ∈ onMessage, Listed c) (hl : ∀ c ∈ onDown, Listed c)
    (h : w.handleRead answer onMessage onDown = .ok w') :
    (Up w' ∧ answer ≠ .received []) ∨
      (Over w' ∧ closeCalls w'.trace = 1 ∧ answer = .received []) := by
  unfold World.handleRead at h
  split at h
  · obtain ⟨ho, hone⟩ := handleClose_over hl hu h
    exact Or.inr ⟨ho, hone, rfl⟩
  · rename_i data hne
    obtain ⟨b, -, h⟩ := bind_ok h
    refine Or.inl ⟨calls_up ?_ hm h, by simpa using hne⟩
    exact ((frame_setInput w b).trans (frame_emit _ rfl rfl)).up hu
  · cases h
    exact Or.inl ⟨hu, by simp⟩

/-- What an event does to a connection that is up: it stays up, or it goes through
`HandleClose` once. -/
theorem event_up {w w' : World} {revents : Events} {a : Answers} (hu : Up w)
    (he : Enabled w (.event revents a)) (hs : Apart (.event revents a))
    (h : w.handleEvent revents a = .ok w') :
    (Up w' ∧ entersClose w (.event revents a) = []) ∨
      (Over w' ∧ closeCalls w'.trace = 1 ∧ entersClose w (.event revents a) = [w]) := by
  obtain ⟨-, hm, hd⟩ := he
  obtain ⟨u, hhang, h⟩ := bind_ok h
  obtain ⟨v, hread, h⟩ := bind_ok h
  have hdone (ho : Over v) : w' = v := by
    rcases onlyIf_ok h with ⟨-, hw⟩ | ⟨-, rfl⟩
    · exact handleWrite_closed ho.noEvent hw
    · rfl
  have hup (hv : Up v) : Up w' := by
    rcases onlyIf_ok h with ⟨-, hw⟩ | ⟨-, rfl⟩
    · exact handleWrite_up hv hw
    · exact hv
  rcases onlyIf_ok hhang with ⟨hb, hclose⟩ | ⟨hb, rfl⟩
  · obtain ⟨ho, hone⟩ := handleClose_over hd hu hclose
    have hvu : v = u := by
      rcases onlyIf_ok hread with ⟨hr, hread⟩ | ⟨-, rfl⟩
      · obtain ⟨errno, hf⟩ := not_read_after_hangup hs hb hr
        rw [hf] at hread
        exact (Except.ok.inj hread).symm
      · rfl
    subst hvu
    rw [hdone ho]
    exact Or.inr ⟨ho, hone, entersClose_of_hangup hs hb⟩
  · rw [entersClose_of_skipped hb]
    rcases onlyIf_ok hread with ⟨hr, hread⟩ | ⟨hr, rfl⟩
    · rw [hr]
      rcases handleRead_up hu hm hd hread with ⟨hv, hne⟩ | ⟨ho, hone, hnone⟩
      · exact Or.inl ⟨hup hv, by simp [hne]⟩
      · rw [hdone ho]
        exact Or.inr ⟨ho, hone, by simp [hnone]⟩
    · rw [hr]
      exact Or.inl ⟨hup hu, rfl⟩

/-- The user's callback runs before the connection is closed, if at all. -/
theorem callsMessage_event {w u : World} {revents : Events} {a : Answers} (hu : Up w)
    (hs : Apart (.event revents a)) (h : u ∈ callsMessage w (.event revents a)) :
    closeCalls u.trace = 0 := by
  simp only [callsMessage] at h
  split at h
  · rename_i v x data hhang hread
    split at h
    · rename_i hr
      split at h
      · rw [List.mem_singleton.mp h]
        rcases onlyIf_ok hhang with ⟨hb, -⟩ | ⟨-, rfl⟩
        · obtain ⟨errno, hf⟩ := not_read_after_hangup hs hb hr
          rw [hread] at hf
          cases hf
        · exact hu.closes
      · cases h
    · cases h
  · cases h

/-! ## Functors and the final `ConnectDestroyed` -/

theorem frame_dequeue {w : World} (f : PendingFunctor) : Frame w (dequeue w f) :=
  ⟨rfl, rfl, rfl, rfl, rfl, fun _ hg => Or.inl (List.mem_of_mem_erase hg)⟩

theorem functor_up {w w' : World} {f : PendingFunctor} {answer : WriteResult} {onRun : List Call}
    (hu : Up w) (he : Enabled w (.functor f answer onRun))
    (h : (dequeue w f).runFunctor answer onRun f = .ok w') :
    (Up w' ∧ entersClose w (.functor f answer onRun) = []) ∨
      (Over w' ∧ closeCalls w'.trace = 1 ∧
        ∃ u, entersClose w (.functor f answer onRun) = [u] ∧ u.isOpen = true) := by
  obtain ⟨hf, hl⟩ := he
  have hq : Up (dequeue w f) := (frame_dequeue f).up hu
  have hkeep := hu.queued f hf
  cases f with
  | sendInLoop message =>
    exact Or.inl ⟨up_of_alive (sendInLoop_alive (Or.inl hq) h)
      (sendInLoop_open (up_open hq) h).closes, rfl⟩
  | shutdownInLoop =>
    cases h
    exact Or.inl ⟨(frame_shutdownInLoop _).up hq, rfl⟩
  | forceCloseInLoop =>
    have hopen : w.isOpen = true := (isOpen_iff w).mpr hu.isOpen
    have hopen' : (dequeue w .forceCloseInLoop).isOpen = true := hopen
    simp only [World.runFunctor, World.forceCloseInLoop, hopen', ↓reduceIte] at h
    obtain ⟨ho, hone⟩ := handleClose_over hl hq h
    refine Or.inr ⟨ho, hone, dequeue w .forceCloseInLoop, ?_, hopen'⟩
    simp only [entersClose, hopen, ↓reduceIte]
  | startReadInLoop => exact absurd rfl hkeep.1
  | stopReadInLoop => exact absurd rfl hkeep.2
  | writeComplete => exact Or.inl ⟨calls_up hq hl h, rfl⟩
  | highWatermark len => exact Or.inl ⟨calls_up hq hl h, rfl⟩

/-- `channel_->Remove()` on a connection that is down. -/
theorem remove_over {w w' : World} (ho : Over w) (h : w.onChannel Channel.remove = .ok w') :
    Over w' ∧ w'.trace = w.trace := by
  obtain ⟨hst, he, hn, hp, ht⟩ := remove_unwatched ho.unwatched h
  refine ⟨⟨hst.trans ho.closed, he.trans ho.noEvent, hn, ?_, ?_⟩, ht⟩
  · rw [hp]
    exact ho.queued
  · rw [ht]
    exact ho.silent

theorem connectDestroyed_up {w w' : World} {onDown : List Call} (hu : Up w)
    (hl : ∀ c ∈ onDown, Listed c) (h : w.connectDestroyed onDown = .ok w') :
    Over w' ∧ closeCalls w'.trace = 0 := by
  by_cases hc : w.conn.state = .kConnected
  · obtain ⟨v, hv, hd, hz⟩ := disconnect_up hu hc hl
    obtain ⟨u, hu', h⟩ := bind_ok h
    rw [hv] at hu'
    cases hu'
    have ho : Over v :=
      ⟨hd.closed, hd.noEvent, not_not_intro hd.unwatched, hd.queued, silent_of_zero hz⟩
    obtain ⟨ho', ht⟩ := remove_over ho h
    exact ⟨ho', by rw [ht]; exact hz⟩
  · have hk : w.conn.state = .kDisconnecting := hu.isOpen.resolve_left hc
    rw [(up_kDisconnecting onDown hu hk).2.2] at h
    cases h

/-! ## Runs -/

/-- A world whose run entered `HandleClose` in the recorded worlds: at most one, with
the state that its assertion asks for; `close_callback_` was called as often, and
`message_callback_` not after it. -/
structure ClosedAtMostOnce (w : World) (entered : List World) : Prop where
  once : entered.length ≤ 1
  asserted : ∀ u ∈ entered, u.isOpen = true
  closes : closeCalls w.trace = entered.length
  silent : Silent w.trace

def Phase (s : World × List World) : Prop :=
  (Up s.1 ∧ s.2 = []) ∨ (Over s.1 ∧ ClosedAtMostOnce s.1 s.2)

/-- What an act can enter from a connection that is up, whether or not it returns. -/
theorem entersClose_up {w : World} {a : Act} (hu : Up w) (hs : Apart a) :
    (entersClose w a).length ≤ 1 ∧ ∀ u ∈ entersClose w a, u.isOpen = true := by
  have hopen : w.isOpen = true := (isOpen_iff w).mpr hu.isOpen
  have hone (v : World) (hv : v.isOpen = true) :
      [v].length ≤ 1 ∧ ∀ u ∈ [v], u.isOpen = true := by
    refine ⟨Nat.le_refl _, fun u hm => ?_⟩
    rw [List.mem_singleton.mp hm]
    exact hv
  have hnone : ([] : List World).length ≤ 1 ∧ ∀ u ∈ ([] : List World), u.isOpen = true :=
    ⟨Nat.zero_le _, fun _ hm => absurd hm List.not_mem_nil⟩
  cases a with
  | event revents a =>
    cases hb : revents.epollhup && !revents.epollin with
    | true =>
      rw [entersClose_of_hangup hs hb]
      exact hone w hopen
    | false =>
      rw [entersClose_of_skipped hb]
      split
      · exact hone w hopen
      · exact hnone
  | functor f answer onRun =>
    cases f with
    | forceCloseInLoop =>
      simp only [entersClose, hopen, ↓reduceIte]
      exact hone (dequeue w .forceCloseInLoop) hopen
    | _ => exact hnone
  | _ => exact hnone

theorem closedAtMostOnce_of_over {w : World} {entered : List World} (ho : Over w)
    (hc : closeCalls w.trace = entered.length)
    (he : entered.length ≤ 1 ∧ ∀ u ∈ entered, u.isOpen = true) : ClosedAtMostOnce w entered :=
  ⟨he.1, he.2, hc, ho.silent⟩

/-- One act on a connection that is up. -/
theorem perform_up {w w' : World} {a : Act} (hu : Up w) (he : Enabled w a) (hs : Apart a)
    (h : perform w a = .ok w') : Phase (w', entersClose w a) := by
  have hbound := entersClose_up hu hs
  have hclose (ho : Over w') (hc : closeCalls w'.trace = (entersClose w a).length) :
      Phase (w', entersClose w a) := Or.inr ⟨ho, closedAtMostOnce_of_over ho hc hbound⟩
  cases a with
  | event revents a =>
    rcases event_up hu he hs h with hup | ⟨ho, hone, hlist⟩
    · exact Or.inl hup
    · exact hclose ho (by rw [hone, hlist]; rfl)
  | call c =>
    exact Or.inl ⟨up_of_alive (call_alive (Or.inl hu) he h) (call_open (up_open hu) h).closes, rfl⟩
  | callFromOther c =>
    cases h
    exact Or.inl ⟨up_of_alive (callFromOther_alive (Or.inl hu) he)
      (callFromOther_open c (up_open hu)).closes, rfl⟩
  | functor f answer onRun =>
    rcases functor_up hu he h with hup | ⟨ho, hone, u, hlist, -⟩
    · exact Or.inl hup
    · exact hclose ho (by rw [hone, hlist]; rfl)
  | connectDestroyed onDown =>
    obtain ⟨ho, hz⟩ := connectDestroyed_up hu he h
    exact hclose ho hz

theorem not_open_of_over {w : World} (ho : Over w) : w.isOpen = false := by
  simp [isOpen, ho.closed]

/-- Nothing enters `HandleClose` or calls the message callback once the connection is over. -/
theorem entersClose_over {w : World} {a : Act} (ho : Over w) (he : Enabled w a) :
    entersClose w a = [] ∧ callsMessage w a = [] := by
  cases a with
  | event revents a => exact absurd he.1 ho.unwatched
  | functor f answer onRun =>
    cases f with
    | forceCloseInLoop =>
      refine ⟨?_, rfl⟩
      simp only [entersClose, not_open_of_over ho, Bool.false_eq_true, ↓reduceIte]
    | _ => exact ⟨rfl, rfl⟩
  | _ => exact ⟨rfl, rfl⟩

theorem callFromOther_over {w : World} {c : Call} (ho : Over w) (hl : Listed c) :
    w.callFromOther c = w := by
  cases c with
  | send data answer => simp [callFromOther, ho.closed]
  | shutdown => simp [callFromOther, ho.closed]
  | forceClose => simp [callFromOther, not_open_of_over ho]
  | startRead => exact absurd rfl hl.1
  | stopRead => exact absurd rfl hl.2

/-- The functors of a closed connection do not touch its channel. -/
theorem careful_of_over {w : World} {f : PendingFunctor} {onRun : List Call} (ho : Over w)
    (hf : KeepsReading f) (hl : ∀ c ∈ onRun, Listed c) : Careful w onRun f := by
  cases f with
  | sendInLoop message => trivial
  | shutdownInLoop => trivial
  | forceCloseInLoop =>
    intro hopen
    rw [not_open_of_over ho] at hopen
    cases hopen
  | startReadInLoop => exact absurd rfl hf.1
  | stopReadInLoop => exact absurd rfl hf.2
  | writeComplete => exact fun _ => quiet_of_listed hl
  | highWatermark len => exact fun _ => quiet_of_listed hl

/-- One act on a connection that is over. -/
theorem perform_over {w w' : World} {a : Act} (ho : Over w) (he : Enabled w a)
    (h : perform w a = .ok w') : Over w' ∧ closeCalls w'.trace = closeCalls w.trace := by
  cases a with
  | event revents a => exact absurd he.1 ho.unwatched
  | call c =>
    have hq : Quiet w [c] := quiet_of_listed fun d hd => by
      rw [List.mem_singleton.mp hd]
      exact he
    change w.call c = .ok w' at h
    rw [call_closed ho.closed ho.noEvent hq] at h
    cases h
    exact ⟨ho, rfl⟩
  | callFromOther c =>
    change Except.ok (w.callFromOther c) = .ok w' at h
    rw [callFromOther_over ho he] at h
    cases h
    exact ⟨ho, rfl⟩
  | functor f answer onRun =>
    obtain ⟨hf, hl⟩ := he
    have hq : Over (dequeue w f) :=
      ⟨ho.closed, ho.noEvent, ho.unwatched, (frame_dequeue f).keeps ho.queued, ho.silent⟩
    have hc := careful_of_over hq (ho.queued f hf) hl
    rcases runFunctor_closed hq.closed hq.noEvent hc h with rfl | rfl
    · exact ⟨hq, rfl⟩
    · refine ⟨⟨hq.closed, hq.noEvent, hq.unwatched, hq.queued, ?_⟩, ?_⟩
      · rw [emit_trace]
        exact silent_append hq.silent (by simp)
      · exact (frame_emit (dequeue w f) rfl rfl).closes
  | connectDestroyed onDown =>
    obtain ⟨v, hv, h⟩ := bind_ok h
    rw [disconnect_closed onDown ho.closed] at hv
    cases hv
    obtain ⟨ho', ht⟩ := remove_over ho h
    exact ⟨ho', by rw [ht]⟩

theorem step_phase {s t : World × List World} {a : Act} (hp : Phase s) (hs : Apart a)
    (h : Step s a t) : Phase t := by
  obtain ⟨w, entered⟩ := s
  obtain ⟨w', entered'⟩ := t
  obtain ⟨he, hperf, hent⟩ := h
  dsimp only at he hperf hent
  rcases hp with ⟨hu, hnil⟩ | ⟨ho, hc⟩
  · dsimp only at hnil
    rw [hent, hnil, List.nil_append]
    exact perform_up hu he hs hperf
  · obtain ⟨ho', hcl⟩ := perform_over ho he hperf
    rw [hent, (entersClose_over ho he).1, List.append_nil]
    exact Or.inr ⟨ho', closedAtMostOnce_of_over ho' (hcl.trans hc.closes) ⟨hc.once, hc.asserted⟩⟩

theorem run_phase {s t : World × List World} {acts : List Act}
    (hr : Run (fun s a t => Step s a t ∧ Apart a) s acts t) (hp : Phase s) : Phase t :=
  hr.invariant (P := Phase) (fun _ _ _ hi hstep => step_phase hi hstep.2 hstep.1) hp

theorem phase_closedAtMostOnce {s : World × List World} (hp : Phase s) :
    ClosedAtMostOnce s.1 s.2 := by
  rcases hp with ⟨hu, hnil⟩ | ⟨-, hc⟩
  · rw [hnil]
    exact ⟨Nat.zero_le _, fun _ hm => absurd hm List.not_mem_nil, hu.closes,
      silent_of_zero hu.closes⟩
  · exact hc

theorem established_up {c : TcpConnection} {p : EpollPoller} {onUp : List Call} {w : World}
    (hnew : c.channel.index = kNew) (hl : ∀ c ∈ onUp, Listed c)
    (h : connectEstablished ⟨c, p, [], []⟩ onUp = .ok w) : Up w :=
  up_of_alive (established_alive hnew hl h) (connectEstablished_open rfl h).closes

/-- In every run from `ConnectEstablished` in which no event has `EPOLLHUP` and `EPOLLPRI`
without `EPOLLIN` while `readv` succeeds: `HandleClose` is entered at most once, where its
assertion holds, `close_callback_` is called as often, and no message callback follows it.
The same holds of every further act, also of one that does not return. -/
theorem closes_at_most_once (addr : Nat) (sockfd : Int) (writeComplete highWatermarkSet : Bool)
    (highWatermark : Nat) (poller : EpollPoller) {onUp : List Call} {w₀ w : World}
    {acts : List Act} {entered : List World} (hup : ∀ c ∈ onUp, Listed c)
    (h₀ : connectEstablished
      ⟨TcpConnection.new addr sockfd writeComplete highWatermarkSet highWatermark, poller, [], []⟩
      onUp = .ok w₀)
    (hr : Run (fun s a t => Step s a t ∧ Apart a) (w₀, []) acts (w, entered)) :
    ClosedAtMostOnce w entered ∧
      ∀ a, Enabled w a → Apart a →
        (entered ++ entersClose w a).length ≤ 1 ∧ (∀ u ∈ entersClose w a, u.isOpen = true) ∧
          ∀ u ∈ callsMessage w a, closeCalls u.trace = 0 := by
  have hp := run_phase hr (Or.inl ⟨established_up rfl hup h₀, rfl⟩)
  refine ⟨phase_closedAtMostOnce hp, ?_⟩
  intro a he hs
  rcases hp with ⟨hu, hnil⟩ | ⟨ho, hc⟩
  · dsimp only at hu hnil
    obtain ⟨hlen, hopen⟩ := entersClose_up hu hs
    refine ⟨by rw [hnil, List.nil_append]; exact hlen, hopen, ?_⟩
    intro u hm
    cases a with
    | event revents a => exact callsMessage_event hu hs hm
    | _ => cases hm
  · obtain ⟨hnone, hquiet⟩ := entersClose_over ho he
    rw [hnone, hquiet, List.append_nil]
    exact ⟨hc.once, fun _ hm => absurd hm List.not_mem_nil,
      fun _ hm => absurd hm List.not_mem_nil⟩

/-- An event with the given answer of `readv` and callbacks that make no call. -/
def eventOf (revents : Events) (read : Buffer.ReadResult) : Act :=
  .event revents ⟨read, .count 0, [], []⟩

/-- `EPOLLHUP` alone, and `EPOLLHUP` with `EPOLLPRI`. -/
def hupEvent : Events := ⟨false, false, false, false, true⟩

def hupPriEvent : Events := ⟨false, true, false, false, true⟩

/-- A connection on an empty poller, established, and what either event does to it. -/
def hangupRuns : Except Fault (World × World × World) := do
  let w₀ ← connectEstablished
    ⟨TcpConnection.new 1 5 true false 0, ⟨fun _ => none, fun _ => none⟩, [], []⟩ []
  let w₁ ← perform w₀ (eventOf hupEvent (.received []))
  let w₂ ← perform w₀ (eventOf hupPriEvent (.received [7]))
  return (w₀, w₁, w₂)

/-- What the two events leave behind, and the entries of a third one that reads nothing. -/
theorem hangupRuns_seen :
    (hangupRuns.map fun s => (s.1.poller.interest s.1.conn.channel.fd, s.2.2.trace)) =
        .ok (some .kReadEvent, [.connectionCallback .kConnected,
          .connectionCallback .kDisconnected, .closeCallback, .messageCallback]) ∧
      (hangupRuns.map fun s =>
        (entersClose s.1 (eventOf hupPriEvent (.received []))).map (·.isOpen)) =
        .ok [true, false] ∧
      (hangupRuns.map fun s => (perform s.1 (eventOf hupPriEvent (.received []))).map fun _ => ()) =
        .ok (.error .assertion) := by
  refine ⟨?_, ?_, ?_⟩
  · decide +kernel
  · decide +kernel
  · decide +kernel

/-- The worlds of `hangupRuns`, with what was seen of them. -/
theorem hangupRuns_worlds :
    ∃ w₀ w₁ w₂, connectEstablished ⟨TcpConnection.new 1 5 true false 0,
        ⟨fun _ => none, fun _ => none⟩, [], []⟩ [] = .ok w₀ ∧ Watched w₀ ∧
      perform w₀ (eventOf hupEvent (.received [])) = .ok w₁ ∧
      perform w₀ (eventOf hupPriEvent (.received [7])) = .ok w₂ ∧
      w₂.trace = [.connectionCallback .kConnected, .connectionCallback .kDisconnected,
        .closeCallback, .messageCallback] ∧
      (entersClose w₀ (eventOf hupPriEvent (.received []))).map (·.isOpen) = [true, false] ∧
      perform w₀ (eventOf hupPriEvent (.received [])) = .error .assertion := by
  obtain ⟨hseen, henter, hfail⟩ := hangupRuns_seen
  obtain ⟨s, hs, hseen⟩ := ok_of_map hseen
  rw [hs] at henter hfail
  obtain ⟨w₀, h₀, h⟩ := bind_ok hs
  obtain ⟨w₁, h₁, h⟩ := bind_ok h
  obtain ⟨w₂, h₂, h⟩ := bind_ok h
  cases h
  obtain ⟨hw, ht⟩ := Prod.mk.inj hseen
  refine ⟨w₀, w₁, w₂, h₀, ?_, h₁, h₂, ht, Except.ok.inj henter, ?_⟩
  · intro hnone
    rw [hnone] at hw
    cases hw
  · exact error_of_map (f := fun _ => ()) (Except.ok.inj hfail)

/-- The peer hangs up: `HandleClose` is entered once. -/
theorem closes_once_on_hangup :
    ∃ w₀ w₁, connectEstablished ⟨TcpConnection.new 1 5 true false 0,
        ⟨fun _ => none, fun _ => none⟩, [], []⟩ [] = .ok w₀ ∧
      Run (fun s a t => Step s a t ∧ Apart a) (w₀, []) [eventOf hupEvent (.received [])]
        (w₁, [w₀]) ∧ ClosedAtMostOnce w₁ [w₀] := by
  obtain ⟨w₀, w₁, -, h₀, hw, h₁, -⟩ := hangupRuns_worlds
  have hs : Apart (eventOf hupEvent (.received [])) := fun _ _ hpri => by cases hpri
  have hent : [w₀] = [] ++ entersClose w₀ (eventOf hupEvent (.received [])) := by
    rw [List.nil_append]
    exact (entersClose_of_hangup hs rfl).symm
  have hr : Run (fun s a t => Step s a t ∧ Apart a) (w₀, []) [eventOf hupEvent (.received [])]
      (w₁, [w₀]) := .single ⟨⟨⟨hw, by simp, by simp⟩, h₁, hent⟩, hs⟩
  exact ⟨w₀, w₁, h₀, hr, (closes_at_most_once 1 5 true false 0 _ (by simp) h₀ hr).1⟩

/-- `EPOLLHUP` with `EPOLLPRI`: when `readv` answers zero, the assertion of a second
`HandleClose` fails; when it delivers a byte, the message callback follows the close. -/
theorem closed_and_then_read :
    ∃ w₀ w, connectEstablished ⟨TcpConnection.new 1 5 true false 0,
        ⟨fun _ => none, fun _ => none⟩, [], []⟩ [] = .ok w₀ ∧
      Enabled w₀ (eventOf hupPriEvent (.received [])) ∧
      (entersClose w₀ (eventOf hupPriEvent (.received []))).map (·.isOpen) = [true, false] ∧
      perform w₀ (eventOf hupPriEvent (.received [])) = .error .assertion ∧
      Step (w₀, []) (eventOf hupPriEvent (.received [7])) (w, [w₀]) ∧ ¬Silent w.trace := by
  obtain ⟨w₀, -, w₂, h₀, hw, -, h₂, ht, henter, hfail⟩ := hangupRuns_worlds
  have hone : [w₀] = [] ++ entersClose w₀ (eventOf hupPriEvent (.received [7])) := by
    rw [List.nil_append]
    simp only [eventOf, entersClose]
    cases hangup w₀ hupPriEvent ⟨.received [7], .count 0, [], []⟩ with
    | ok u => rfl
    | error e => rfl
  refine ⟨w₀, w₂, h₀, ⟨hw, by simp, by simp⟩, henter, hfail,
    ⟨⟨hw, by simp, by simp⟩, h₂, hone⟩, ?_⟩
  rw [ht]
  unfold Silent
  decide

end RyanNetwork.Tcp.CloseOnce
