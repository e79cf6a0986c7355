import RyanNetwork.Lib.Runs
import RyanNetwork.Tcp.Connection

/-!
# Up and down notifications of a connection

From `ConnectEstablished` on a connection is up: registered, reading, and
notified once. `HandleClose` takes it down: notified a second time and without
events of interest. Every poll event, user call and queued functor keeps one of
the two; the final `ConnectDestroyed` then meets its assertions in every state
but `kDisconnecting`, where it neither disables nor notifies.
-/
namespace RyanNetwork.Tcp.Callbacks

open Lib World

set_option autoImplicit false

/-- The states that the calls of `connection_callback_` saw, oldest first. -/
def notifications (trace : List Effect) : List StateE :=
  trace.filterMap fun
    | .connectionCallback s => some s
    | _ => none

theorem notifications_append (t u : List Effect) :
    notifications (t ++ u) = notifications t ++ notifications u :=
  List.filterMap_append

/-- `Send`, `Shutdown` and `ForceClose`. -/
def Listed (c : Call) : Prop := c ≠ .startRead ∧ c ≠ .stopRead

/-- The functors that do not touch the read interest. -/
def KeepsReading (f : PendingFunctor) : Prop := f ≠ .startReadInLoop ∧ f ≠ .stopReadInLoop

/-- Between `ConnectEstablished` and `HandleClose`. -/
structure Up (w : World) : Prop where
  isOpen : w.conn.state = .kConnected ∨ w.conn.state = .kDisconnecting
  index : w.conn.channel.index = kAdded
  owned : w.poller.channels w.conn.channel.fd = some w.conn.channel.addr
  reading : w.conn.channel.events.epollin = true
  notified : notifications w.trace = [.kConnected]
  closes : closeCalls w.trace = 0
  queued : ∀ f ∈ w.pending, KeepsReading f

/-- Disabled and notified of it. -/
structure Down (w : World) : Prop where
  closed : w.conn.state = .kDisconnected
  index : w.conn.channel.index = kDeleted
  owned : w.poller.channels w.conn.channel.fd = some w.conn.channel.addr
  noEvent : w.conn.channel.events = Events.kNoneEvent
  unwatched : w.poller.interest w.conn.channel.fd = none
  notified : notifications w.trace = [.kConnected, .kDisconnected]
  queued : ∀ f ∈ w.pending, KeepsReading f

/-- After `HandleClose`, which also calls `close_callback_`. -/
structure Closed (w : World) : Prop extends Down w where
  closes : closeCalls w.trace = 1

def Alive (w : World) : Prop := Up w ∨ Closed w

/-! ## Steps that the two phases do not see -/

/-- `w'` differs from `w` only in what the phases do not speak about. -/
structure Frame (w w' : World) : Prop where
  state : w'.conn.state = w.conn.state
  channel : w'.conn.channel = w.conn.channel
  poller : w'.poller = w.poller
  notified : notifications w'.trace = notifications w.trace
  closes : closeCalls w'.trace = closeCalls w.trace
  queued : ∀ f ∈ w'.pending, f ∈ w.pending ∨ KeepsReading f

theorem Frame.refl (w : World) : Frame w w := ⟨rfl, rfl, rfl, rfl, rfl, fun _ => Or.inl⟩

theorem Frame.trans {u v w : World} (h : Frame u v) (h' : Frame v w) : Frame u w := by
  refine ⟨h'.state.trans h.state, h'.channel.trans h.channel, h'.poller.trans h.poller,
    h'.notified.trans h.notified, h'.closes.trans h.closes, ?_⟩
  intro f hf
  rcases h'.queued f hf with hv | hk
  · exact h.queued f hv
  · exact Or.inr hk

theorem Frame.keeps {w w' : World} (h : Frame w w') (hq : ∀ f ∈ w.pending, KeepsReading f) :
    ∀ f ∈ w'.pending, KeepsReading f := by
  intro f hf
  rcases h.queued f hf with hw | hk
  · exact hq f hw
  · exact hk

theorem Frame.up {w w' : World} (h : Frame w w') (hu : Up w) : Up w' := by
  refine ⟨?_, ?_, ?_, ?_, h.notified.trans hu.notified, h.closes.trans hu.closes,
    h.keeps hu.queued⟩
  · rw [h.state]
    exact hu.isOpen
  · rw [h.channel]
    exact hu.index
  · rw [h.channel, h.poller]
    exact hu.owned
  · rw [h.channel]
    exact hu.reading

theorem Frame.down {w w' : World} (h : Frame w w') (hd : Down w) : Down w' := by
  refine ⟨h.state.trans hd.closed, ?_, ?_, ?_, ?_, h.notified.trans hd.notified,
    h.keeps hd.queued⟩
  · rw [h.channel]
    exact hd.index
  · rw [h.channel, h.poller]
    exact hd.owned
  · rw [h.channel]
    exact hd.noEvent
  · rw [h.channel, h.poller]
    exact hd.unwatched

theorem Frame.alive {w w' : World} (h : Frame w w') (ha : Alive w) : Alive w' :=
  ha.imp h.up fun hc => ⟨h.down hc.toDown, h.closes.trans hc.closes⟩

theorem frame_emit (w : World) {e : Effect} (he : notifications [e] = [])
    (hc : closeCalls [e] = 0) : Frame w (w.emit e) := by
  refine ⟨by simp, by simp, by simp, ?_, ?_, fun _ => Or.inl⟩
  · rw [emit_trace, notifications_append, he, List.append_nil]
  · rw [emit_trace, closeCalls, List.count_append]
    exact congrArg _ hc

theorem frame_queueInLoop (w : World) {f : PendingFunctor} (hf : KeepsReading f) :
    Frame w (w.queueInLoop f) := by
  refine ⟨rfl, rfl, rfl, rfl, rfl, ?_⟩
  intro g hg
  rcases List.mem_append.mp hg with hw | hnew
  · exact Or.inl hw
  · rw [List.mem_singleton.mp hnew]
    exact Or.inr hf

theorem frame_queueIf (w : World) (c : Bool) {f : PendingFunctor} (hf : KeepsReading f) :
    Frame w (w.queueIf c f) := by
  cases c with
  | true => exact frame_queueInLoop w hf
  | false => exact Frame.refl w

theorem frame_setOutput (w : World) (b : Buffer) : Frame w (w.setOutput b) :=
  ⟨by simp, by simp, by simp, by simp, by simp, fun _ => Or.inl⟩

theorem frame_setInput (w : World) (b : Buffer) : Frame w (w.setInput b) :=
  ⟨rfl, rfl, rfl, rfl, rfl, fun _ => Or.inl⟩

theorem frame_shutdownInLoop (w : World) : Frame w w.shutdownInLoop := by
  unfold shutdownInLoop
  split
  · exact Frame.refl w
  · exact frame_emit w rfl rfl

theorem keepsReading_highWatermark (n : Nat) : KeepsReading (.highWatermark n) :=
  ⟨by simp, by simp⟩

theorem keepsReading_writeComplete : KeepsReading .writeComplete := ⟨by simp, by simp⟩

/-! ## Channel operations -/

/-- Changing the write interest of a registered, reading channel. -/
theorem up_watch {w w' : World} {f : Events → Events}
    {op : EpollPoller → Channel → Except Fault (EpollPoller × Channel)}
    (hop : ∀ p c, op p c = p.updateChannel { c with events := f c.events })
    (hf : ∀ e, (f e).epollin = e.epollin) (hu : Up w) (h : w.onChannel op = .ok w') : Up w' := by
  obtain ⟨p, c, hc, rfl⟩ := onChannel_ok h
  rw [hop] at hc
  have hread : (f w.conn.channel.events).epollin = true := (hf _).trans hu.reading
  rcases EpollPoller.updateChannel_cases hc with ⟨hi, -⟩ | ⟨hi, -⟩ | ⟨-, -, hn, -⟩ | ⟨-, -, -, -, hp, hd⟩
  · exact absurd (hu.index.symm.trans hi) (by decide)
  · exact absurd (hu.index.symm.trans hi) (by decide)
  · dsimp only at hn
    rw [hn] at hread
    exact absurd hread (by decide)
  · subst hp hd
    exact ⟨hu.isOpen, hu.index, hu.owned, hread, hu.notified, hu.closes, hu.queued⟩

theorem up_enableWriting {w w' : World} (hu : Up w)
    (h : w.onChannel Channel.enableWriting = .ok w') : Up w' :=
  up_watch (f := (·.or .kWriteEvent)) (fun _ _ => rfl)
    (fun e => by simp [Events.or, Events.kWriteEvent]) hu h

theorem up_disableWriting {w w' : World} (hu : Up w)
    (h : w.onChannel Channel.disableWriting = .ok w') : Up w' :=
  up_watch (f := (·.and Events.kWriteEvent.not)) (fun _ _ => rfl)
    (fun e => by simp [Events.and, Events.not, Events.kWriteEvent]) hu h

/-- The disable-and-notify part that `HandleClose` and `ConnectDestroyed` share:
it succeeds on every connection that is up. -/
theorem up_disableAll {w : World} (hu : Up w) :
    ∃ v, (w.setState .kDisconnected).onChannel Channel.disableAll = .ok v ∧
      Down (v.emit (.connectionCallback v.conn.state)) ∧
      closeCalls (v.emit (.connectionCallback v.conn.state)).trace = 0 := by
  have hnone : w.conn.channel.events.and Events.kNoneEvent = Events.kNoneEvent := by
    simp [Events.and, Events.kNoneEvent]
  have hup : Channel.disableAll w.poller w.conn.channel =
      .ok (w.poller.setInterest w.conn.channel.fd none,
        { w.conn.channel with events := Events.kNoneEvent, index := kDeleted }) := by
    unfold Channel.disableAll
    rw [hnone]
    exact EpollPoller.updateChannel_unregister (c := { w.conn.channel with events := .kNoneEvent })
      hu.index hu.owned rfl
  refine ⟨{ w.setState .kDisconnected with
    poller := w.poller.setInterest w.conn.channel.fd none
    conn := { (w.setState .kDisconnected).conn with
      channel := { w.conn.channel with events := Events.kNoneEvent, index := kDeleted } } }, ?_,
    ?_, ?_⟩
  · unfold World.onChannel
    change (Channel.disableAll w.poller w.conn.channel >>= _) = _
    rw [hup]
    rfl
  · refine ⟨rfl, rfl, hu.owned, rfl, Function.update_self .., ?_, hu.queued⟩
    rw [emit_trace, notifications_append]
    change notifications w.trace ++ _ = _
    rw [hu.notified]
    rfl
  · rw [emit_trace, closeCalls, List.count_append]
    exact congrArg (· + _) hu.closes

/-! ## Every operation keeps a phase -/

/-- Calls that leave a closed connection alone: `StartReadInLoop` and, while
`reading_` is set, `StopReadInLoop` would go to the channel without a look at `state_`. -/
def Quiet (w : World) (cs : List Call) : Prop :=
  .startRead ∉ cs ∧ (w.conn.reading = true → .stopRead ∉ cs)

instance (w : World) (cs : List Call) : Decidable (Quiet w cs) :=
  inferInstanceAs (Decidable (_ ∧ _))

theorem quiet_of_listed {w : World} {cs : List Call} (hl : ∀ c ∈ cs, Listed c) : Quiet w cs :=
  ⟨fun hm => (hl _ hm).1 rfl, fun _ hm => (hl _ hm).2 rfl⟩

theorem Quiet.tail {w : World} {c : Call} {cs : List Call} (hq : Quiet w (c :: cs)) : Quiet w cs :=
  ⟨fun hm => hq.1 (List.mem_cons_of_mem _ hm), fun hr hm => hq.2 hr (List.mem_cons_of_mem _ hm)⟩

theorem call_closed {w : World} {c : Call} (hs : w.conn.state = .kDisconnected)
    (he : w.conn.channel.events = Events.kNoneEvent) (hq : Quiet w [c]) : w.call c = .ok w := by
  cases c with
  | send data answer => simp [call, hs]
  | shutdown => simp [call, hs]
  | forceClose => simp [call, isOpen, hs]
  | startRead => exact absurd (List.mem_singleton.mpr rfl) hq.1
  | stopRead =>
    have hr : w.conn.reading = false := by
      cases hr : w.conn.reading with
      | true => exact absurd (List.mem_singleton.mpr rfl) (hq.2 hr)
      | false => rfl
    have hn : w.conn.channel.isReading = false := by
      rw [Channel.isReading, he]
      decide
    simp [call, stopReadInLoop, hr, hn]

/-- Quiet calls of the user do nothing once the connection is closed. -/
theorem calls_closed {w : World} {cs : List Call} (hs : w.conn.state = .kDisconnected)
    (he : w.conn.channel.events = Events.kNoneEvent) (hq : Quiet w cs) : w.calls cs = .ok w := by
  induction cs with
  | nil => rfl
  | cons c cs ih =>
    have hc : Quiet w [c] := by
      refine ⟨fun hm => hq.1 ?_, fun hr hm => hq.2 hr ?_⟩
      · rw [List.mem_singleton.mp hm]
        exact List.mem_cons_self
      · rw [List.mem_singleton.mp hm]
        exact List.mem_cons_self
    unfold World.calls
    rw [call_closed hs he hc]
    exact ih hq.tail

theorem calls_down {w : World} {cs : List Call} (hd : Down w) (hl : ∀ c ∈ cs, Listed c) :
    w.calls cs = .ok w :=
  calls_closed hd.closed hd.noEvent (quiet_of_listed hl)

theorem handleClose_closed {w w' : World} {onDown : List Call} (hl : ∀ c ∈ onDown, Listed c)
    (hu : Up w) (h : w.handleClose onDown = .ok w') : Closed w' := by
  obtain ⟨v, hv, hd, hz⟩ := up_disableAll hu
  have hopen : w.isOpen = true := (isOpen_iff w).mpr hu.isOpen
  simp only [handleClose, hopen, ↓reduceIte, hv] at h
  obtain ⟨_, hv', h⟩ := bind_ok h
  cases hv'
  obtain ⟨u, hc, h⟩ := bind_ok h
  rw [calls_down hd hl] at hc
  cases hc
  cases h
  refine ⟨⟨hd.closed, hd.index, hd.owned, hd.noEvent, hd.unwatched, ?_, hd.queued⟩, ?_⟩
  · rw [emit_trace, notifications_append, hd.notified]
    rfl
  · rw [emit_trace, closeCalls, List.count_append]
    exact congrArg (· + 1) hz

/-- A second `HandleClose` fails its assertion. -/
theorem handleClose_alive {w w' : World} {onDown : List Call} (hl : ∀ c ∈ onDown, Listed c)
    (ha : Alive w) (h : w.handleClose onDown = .ok w') : Alive w' := by
  rcases ha with hu | hd
  · exact Or.inr (handleClose_closed hl hu h)
  · simp [handleClose, isOpen, hd.closed] at h

theorem bufferRemaining_up {w w' : World} {data : List UInt8} {n r : Nat} (hu : Up w)
    (h : w.bufferRemaining data n r = .ok w') : Up w' := by
  rcases bufferRemaining_ok h with rfl | ⟨b, c, len, v, rfl, h⟩
  · exact hu
  · have hq := ((frame_queueIf w c (keepsReading_highWatermark len)).trans
      (frame_setOutput _ b)).up hu
    rcases h with rfl | h
    · exact hq
    · exact up_enableWriting hq h

theorem sendInLoop_alive {w w' : World} {data : List UInt8} {answer : WriteResult} (ha : Alive w)
    (h : w.sendInLoop data answer = .ok w') : Alive w' := by
  rcases ha with hu | hd
  · refine Or.inl ?_
    rcases sendInLoop_ok h with rfl | ⟨n, c, h⟩ | h
    · exact hu
    · apply bufferRemaining_up ?_ h
      exact ((frame_emit w rfl rfl).trans (frame_queueIf _ c keepsReading_writeComplete)).up hu
    · exact bufferRemaining_up hu h
  · unfold World.sendInLoop at h
    rw [if_pos hd.closed] at h
    cases h
    exact Or.inr hd

theorem up_setState_kDisconnecting {w : World} (hu : Up w) : Up (w.setState .kDisconnecting) :=
  ⟨Or.inr rfl, hu.index, hu.owned, hu.reading, hu.notified, hu.closes, hu.queued⟩

theorem alive_open {w : World} (ha : Alive w)
    (ho : w.conn.state = .kConnected ∨ w.conn.state = .kDisconnecting) : Up w := by
  rcases ha with hu | hd
  · exact hu
  · rw [hd.closed] at ho
    simp at ho

theorem call_alive {w w' : World} {c : Call} (ha : Alive w) (hl : Listed c)
    (h : w.call c = .ok w') : Alive w' := by
  cases c with
  | send data answer =>
    simp only [call] at h
    split at h
    · exact sendInLoop_alive ha h
    · cases h
      exact ha
  | shutdown =>
    simp only [call] at h
    split at h
    · rename_i hc
      cases h
      exact Or.inl ((frame_shutdownInLoop _).up (up_setState_kDisconnecting (alive_open ha (.inl hc))))
    · cases h
      exact ha
  | forceClose =>
    simp only [call] at h
    split at h
    · rename_i ho
      cases h
      have hu := up_setState_kDisconnecting (alive_open ha ((isOpen_iff w).mp ho))
      exact Or.inl ((frame_queueInLoop _ ⟨by simp, by simp⟩).up hu)
    · cases h
      exact ha
  | startRead => exact absurd rfl hl.1
  | stopRead => exact absurd rfl hl.2

theorem callFromOther_alive {w : World} {c : Call} (ha : Alive w) (hl : Listed c) :
    Alive (w.callFromOther c) := by
  cases c with
  | send data answer =>
    simp only [callFromOther]
    split
    · exact (frame_queueInLoop w ⟨by simp, by simp⟩).alive ha
    · exact ha
  | shutdown =>
    simp only [callFromOther]
    split
    · rename_i hc
      have hu := up_setState_kDisconnecting (alive_open ha (.inl hc))
      exact Or.inl ((frame_queueInLoop _ ⟨by simp, by simp⟩).up hu)
    · exact ha
  | forceClose =>
    simp only [callFromOther]
    split
    · rename_i ho
      have hu := up_setState_kDisconnecting (alive_open ha ((isOpen_iff w).mp ho))
      exact Or.inl ((frame_queueInLoop _ ⟨by simp, by simp⟩).up hu)
    · exact ha
  | startRead => exact absurd rfl hl.1
  | stopRead => exact absurd rfl hl.2

theorem calls_alive {w w' : World} {cs : List Call} (ha : Alive w) (hl : ∀ c ∈ cs, Listed c)
    (h : w.calls cs = .ok w') : Alive w' := by
  induction cs generalizing w with
  | nil =>
    cases h
    exact ha
  | cons c cs ih =>
    obtain ⟨v, hv, h⟩ := bind_ok h
    exact ih (call_alive ha (hl c (by simp)) hv) (fun d hd => hl d (List.mem_cons_of_mem _ hd)) h

theorem handleRead_alive {w w' : World} {answer : Buffer.ReadResult} {onMessage onDown : List Call}
    (hm : ∀ c ∈ onMessage, Listed c) (hl : ∀ c ∈ onDown, Listed c) (ha : Alive w)
    (h : w.handleRead answer onMessage onDown = .ok w') : Alive w' := by
  unfold World.handleRead at h
  split at h
  · exact handleClose_alive hl ha h
  · obtain ⟨b, -, h⟩ := bind_ok h
    refine calls_alive ?_ hm h
    exact ((frame_setInput w b).trans (frame_emit _ rfl rfl)).alive ha
  · cases h
    exact ha

theorem afterDrain_up {w w' : World} (hu : Up w) (h : w.afterDrain = .ok w') : Up w' := by
  obtain ⟨v, hv, h⟩ := bind_ok h
  have hq : Up (v.queueIf v.conn.writeCompleteCallback .writeComplete) :=
    (frame_queueIf _ _ keepsReading_writeComplete).up (up_disableWriting hu hv)
  cases h
  split
  · exact (frame_shutdownInLoop _).up hq
  · exact hq

theorem drained_up {w w' : World} {offered : List UInt8} {n : Nat} (hu : Up w)
    (h : w.drained offered n = .ok w') : Up w' := by
  have hd : Up ((w.emit (.wrote (offered.take n))).setOutput (w.conn.outputBuffer.retrieve n)) :=
    ((frame_emit w rfl rfl).trans (frame_setOutput _ _)).up hu
  rcases onlyIf_ok h with ⟨-, h⟩ | ⟨-, rfl⟩
  · exact afterDrain_up hd h
  · exact hd

theorem handleWrite_alive {w w' : World} {answer : WriteResult} (ha : Alive w)
    (h : w.handleWrite answer = .ok w') : Alive w' := by
  rcases handleWrite_ok h with rfl | ⟨hw, offered, n, -, h⟩
  · exact ha
  · rcases ha with hu | hd
    · exact Or.inl (drained_up hu h)
    · rw [Channel.isWriting, hd.noEvent] at hw
      exact absurd hw (by decide)

theorem handleEvent_alive {w w' : World} {revents : Events} {a : Answers}
    (hm : ∀ c ∈ a.onMessage, Listed c) (hl : ∀ c ∈ a.onDown, Listed c) (ha : Alive w)
    (h : w.handleEvent revents a = .ok w') : Alive w' := by
  obtain ⟨u, hu, h⟩ := bind_ok h
  obtain ⟨v, hv, h⟩ := bind_ok h
  have hua : Alive u := by
    rcases onlyIf_ok hu with ⟨-, hc⟩ | ⟨-, rfl⟩
    · exact handleClose_alive hl ha hc
    · exact ha
  have hva : Alive v := by
    rcases onlyIf_ok hv with ⟨-, hr⟩ | ⟨-, rfl⟩
    · exact handleRead_alive hm hl hua hr
    · exact hua
  rcases onlyIf_ok h with ⟨-, hw⟩ | ⟨-, rfl⟩
  · exact handleWrite_alive hva hw
  · exact hva

theorem runFunctor_alive {w w' : World} {answer : WriteResult} {onRun : List Call}
    {f : PendingFunctor} (hl : ∀ c ∈ onRun, Listed c) (ha : Alive w) (hf : KeepsReading f)
    (h : w.runFunctor answer onRun f = .ok w') : Alive w' := by
  cases f with
  | sendInLoop message => exact sendInLoop_alive ha h
  | shutdownInLoop =>
    cases h
    exact (frame_shutdownInLoop w).alive ha
  | forceCloseInLoop =>
    simp only [World.runFunctor, World.forceCloseInLoop] at h
    split at h
    · exact handleClose_alive hl ha h
    · cases h
      exact ha
  | startReadInLoop => exact absurd rfl hf.1
  | stopReadInLoop => exact absurd rfl hf.2
  | writeComplete => exact calls_alive ha hl h
  | highWatermark len => exact calls_alive ha hl h

/-! ## Runs -/

/-- What can happen to an established connection before it is destroyed. -/
inductive LifeStep where
  | event (revents : Events) (a : Answers)
  | call (c : Call)
  | callFromOther (c : Call)
  | functor (answer : WriteResult) (onRun : List Call)

/-- A poll event needs a registered descriptor; a functor is taken from the
front of the queue. -/
def Step (w : World) : LifeStep → World → Prop
  | .event revents a, w' =>
    w.poller.interest w.conn.channel.fd ≠ none ∧ (∀ c ∈ a.onMessage, Listed c) ∧
      (∀ c ∈ a.onDown, Listed c) ∧ w.handleEvent revents a = .ok w'
  | .call c, w' => Listed c ∧ w.call c = .ok w'
  | .callFromOther c, w' => Listed c ∧ w' = w.callFromOther c
  | .functor answer onRun, w' =>
    (∀ c ∈ onRun, Listed c) ∧ ∃ f rest, w.pending = f :: rest ∧
      World.runFunctor { w with pending := rest } answer onRun f = .ok w'

theorem step_alive {w w' : World} {a : LifeStep} (ha : Alive w) (h : Step w a w') : Alive w' := by
  cases a with
  | event revents a => exact handleEvent_alive h.2.1 h.2.2.1 ha h.2.2.2
  | call c => exact call_alive ha h.1 h.2
  | callFromOther c =>
    rw [h.2]
    exact callFromOther_alive ha h.1
  | functor answer onRun =>
    obtain ⟨hl, f, rest, hp, h⟩ := h
    have hq : ∀ g ∈ w.pending, KeepsReading g := ha.elim Up.queued fun hc => hc.queued
    rw [hp] at hq
    have hpop : Frame w { w with pending := rest } := by
      refine ⟨rfl, rfl, rfl, rfl, rfl, fun g hg => Or.inr (hq g (List.mem_cons_of_mem _ hg))⟩
    exact runFunctor_alive hl (hpop.alive ha) (hq f (by simp)) h

theorem run_alive {w w' : World} {steps : List LifeStep} (hr : Run Step w steps w')
    (ha : Alive w) : Alive w' :=
  hr.invariant (P := Alive) (fun _ _ _ hs => step_alive hs) ha

theorem established_alive {c : TcpConnection} {p : EpollPoller} {onUp : List Call} {w : World}
    (hnew : c.channel.index = kNew) (hl : ∀ c ∈ onUp, Listed c)
    (h : connectEstablished ⟨c, p, [], []⟩ onUp = .ok w) : Alive w := by
  obtain ⟨v, hv, h⟩ := bind_ok h
  refine calls_alive (Or.inl ?_) hl h
  obtain ⟨q, d, hop, rfl⟩ := onChannel_ok hv
  have hread : (c.channel.events.or Events.kReadEvent).epollin = true := by
    simp [Events.or, Events.kReadEvent]
  rcases EpollPoller.updateChannel_cases hop with
    ⟨-, -, -, rfl, rfl⟩ | ⟨hi, -⟩ | ⟨hi, -⟩ | ⟨hi, -⟩
  · exact ⟨Or.inl rfl, rfl, by simp [EpollPoller.setInterest, EpollPoller.setChannel], hread, rfl,
      rfl, by simp [emit, setState]⟩
  · exact absurd (hnew.symm.trans hi) (by decide)
  · exact absurd (hnew.symm.trans hi) (by decide)
  · exact absurd (hnew.symm.trans hi) (by decide)

/-! ## The final `ConnectDestroyed` -/

/-- `ConnectDestroyed` removes a channel without interest and returns, and by
then the user was notified once while connected and once after disconnecting. -/
def Balanced (w : World) (onDown : List Call) : Prop :=
  (∃ v, w.disconnect onDown = .ok v ∧ v.conn.channel.isNoneEvent = true) ∧
    ∃ w', w.connectDestroyed onDown = .ok w' ∧
      notifications w'.trace = [.kConnected, .kDisconnected]

/-- The world after `channel_->Remove()` of a channel that is no longer registered. -/
def removed (w : World) : World :=
  { w with
    poller := w.poller.setChannel w.conn.channel.fd none
    conn := { w.conn with channel := { w.conn.channel with index := kNew } } }

theorem connectDestroyed_removed {w v : World} {onDown : List Call}
    (h : w.disconnect onDown = .ok v) (hi : v.conn.channel.index = kDeleted)
    (ho : v.poller.channels v.conn.channel.fd = some v.conn.channel.addr)
    (he : v.conn.channel.events = Events.kNoneEvent) :
    w.connectDestroyed onDown = .ok (removed v) := by
  unfold connectDestroyed
  rw [h]
  change (Channel.remove v.poller v.conn.channel >>= _) = _
  rw [Channel.remove, EpollPoller.removeChannel_deleted hi ho he]
  rfl

theorem down_balanced {w v : World} {onDown : List Call} (hd : Down v)
    (h : w.disconnect onDown = .ok v) : Balanced w onDown := by
  refine ⟨⟨v, h, by simp [Channel.isNoneEvent, hd.noEvent]⟩, removed v, ?_, hd.notified⟩
  exact connectDestroyed_removed h hd.index hd.owned hd.noEvent

/-- `ConnectDestroyed` on a connected connection disables it and notifies the user. -/
theorem disconnect_up {w : World} {onDown : List Call} (hu : Up w)
    (hc : w.conn.state = .kConnected) (hl : ∀ c ∈ onDown, Listed c) :
    ∃ v, w.disconnect onDown = .ok v ∧ Down v ∧ closeCalls v.trace = 0 := by
  obtain ⟨v, hv, hd, hz⟩ := up_disableAll hu
  refine ⟨v.emit (.connectionCallback v.conn.state), ?_, hd, hz⟩
  simp only [disconnect, hc, ↓reduceIte, hv]
  exact calls_down hd hl

/-- `ConnectDestroyed` on a connection that is still shutting down skips the
disable-and-notify part, so `RemoveChannel` meets a registered channel. -/
theorem up_kDisconnecting {w : World} (onDown : List Call) (hu : Up w)
    (hs : w.conn.state = .kDisconnecting) :
    w.disconnect onDown = .ok w ∧ w.conn.channel.events ≠ Events.kNoneEvent ∧
      w.connectDestroyed onDown = .error .assertion := by
  have hskip : w.disconnect onDown = .ok w := by simp [disconnect, hs]
  have hne : w.conn.channel.events ≠ Events.kNoneEvent := by
    intro he
    have hread := hu.reading
    rw [he] at hread
    exact absurd hread (by decide)
  refine ⟨hskip, hne, ?_⟩
  unfold connectDestroyed
  rw [hskip]
  change (Channel.remove w.poller w.conn.channel >>= _) = _
  rw [Channel.remove, EpollPoller.removeChannel_interested hne]
  rfl

/-- In every run from `ConnectEstablished`, the `ConnectDestroyed` that ends it
finds the notifications balanced and the channel without interest exactly when
the connection is not left in `kDisconnecting`. -/
theorem balanced_iff_not_kDisconnecting (addr : Nat) (sockfd : Int)
    (writeComplete highWatermarkSet : Bool) (highWatermark : Nat) (poller : EpollPoller)
    {onUp onDown : List Call} {w₀ w : World} {steps : List LifeStep}
    (hup : ∀ c ∈ onUp, Listed c) (hdown : ∀ c ∈ onDown, Listed c)
    (h₀ : connectEstablished
      ⟨TcpConnection.new addr sockfd writeComplete highWatermarkSet highWatermark, poller, [], []⟩
      onUp = .ok w₀)
    (hr : Run Step w₀ steps w) :
    Balanced w onDown ↔ w.conn.state ≠ .kDisconnecting := by
  have ha : Alive w := run_alive hr (established_alive rfl hup h₀)
  constructor
  · rintro ⟨-, w', hw', -⟩ hs
    rw [(up_kDisconnecting onDown (alive_open ha (.inr hs)) hs).2.2] at hw'
    cases hw'
  · intro hs
    rcases ha with hu | hd
    · obtain ⟨v, hv, hd, -⟩ := disconnect_up hu (hu.isOpen.resolve_right hs) hdown
      exact down_balanced hd hv
    · refine down_balanced hd.toDown ?_
      simp [disconnect, hd.closed]

/-- A connection on an empty poller, established and then shut down by the user. -/
def shutDownRun : Except Fault (World × World) := do
  let w₀ ← connectEstablished
    ⟨TcpConnection.new 1 5 true false 0, ⟨fun _ => none, fun _ => none⟩, [], []⟩ []
  let w ← w₀.call .shutdown
  return (w₀, w)

theorem shutDownRun_kDisconnecting :
    ∃ w₀ w, connectEstablished ⟨TcpConnection.new 1 5 true false 0,
        ⟨fun _ => none, fun _ => none⟩, [], []⟩ [] = .ok w₀ ∧
      Run Step w₀ [.call .shutdown] w ∧ w.conn.state = .kDisconnecting := by
  have hok : (shutDownRun.map fun s => s.2.conn.state) = .ok .kDisconnecting := by decide +kernel
  obtain ⟨s, hs, hok⟩ := ok_of_map hok
  obtain ⟨w₀, h₀, h⟩ := bind_ok hs
  obtain ⟨w, hw, h⟩ := bind_ok h
  cases h
  exact ⟨w₀, w, h₀, .single ⟨⟨by simp, by simp⟩, hw⟩, hok⟩

/-- Destroying the server after `Shutdown` fails the assertion of `RemoveChannel`. -/
theorem destroyed_after_shutdown :
    ∃ w₀ w, connectEstablished ⟨TcpConnection.new 1 5 true false 0,
        ⟨fun _ => none, fun _ => none⟩, [], []⟩ [] = .ok w₀ ∧
      Run Step w₀ [.call .shutdown] w ∧ ¬Balanced w [] ∧
      w.connectDestroyed [] = .error .assertion ∧ notifications w.trace = [.kConnected] := by
  obtain ⟨w₀, w, h₀, hr, hs⟩ := shutDownRun_kDisconnecting
  have hu : Up w := alive_open (run_alive hr (established_alive rfl (by simp) h₀)) (.inr hs)
  have hf := up_kDisconnecting [] hu hs
  refine ⟨w₀, w, h₀, hr, ?_, hf.2.2, hu.notified⟩
  rintro ⟨-, w', hw', -⟩
  rw [hf.2.2] at hw'
  cases hw'

/-- A connection that sends, is closed by its peer, and is then destroyed. -/
def peerCloseRun : Except Fault (World × World × World) := do
  let w₀ ← connectEstablished
    ⟨TcpConnection.new 1 5 true false 0, ⟨fun _ => none, fun _ => none⟩, [], []⟩ []
  let w₁ ← w₀.call (.send [104, 105] (.count 2))
  let w₂ ← w₁.handleEvent .kReadEvent ⟨.received [], .count 0, [], []⟩
  return (w₀, w₁, w₂)

theorem balanced_after_peer_close :
    ∃ w₀ w, connectEstablished ⟨TcpConnection.new 1 5 true false 0,
        ⟨fun _ => none, fun _ => none⟩, [], []⟩ [] = .ok w₀ ∧
      Run Step w₀ [.call (.send [104, 105] (.count 2)),
        .event .kReadEvent ⟨.received [], .count 0, [], []⟩] w ∧
      w.conn.state = .kDisconnected ∧ Balanced w [] := by
  have hok : (peerCloseRun.map fun s => (s.2.1.poller.interest s.2.1.conn.channel.fd,
      s.2.2.conn.state)) = .ok (some .kReadEvent, .kDisconnected) := by decide +kernel
  obtain ⟨s, hs, hok⟩ := ok_of_map hok
  obtain ⟨w₀, h₀, h⟩ := bind_ok hs
  obtain ⟨w₁, h₁, h⟩ := bind_ok h
  obtain ⟨w₂, h₂, h⟩ := bind_ok h
  cases h
  obtain ⟨hi, hst⟩ := Prod.mk.inj hok
  have hr : Run Step w₀ [.call (.send [104, 105] (.count 2)),
      .event .kReadEvent ⟨.received [], .count 0, [], []⟩] w₂ := by
    refine .cons (t := w₁) ⟨⟨by simp, by simp⟩, h₁⟩ (.single ⟨?_, by simp, by simp, h₂⟩)
    intro hnone
    rw [hnone] at hi
    cases hi
  refine ⟨w₀, w₂, h₀, hr, hst, ?_⟩
  refine (balanced_iff_not_kDisconnecting _ _ _ _ _ _ (by simp) (by simp) h₀ hr).mpr ?_
  rw [hst]
  decide

end RyanNetwork.Tcp.Callbacks
