import RyanNetwork.Tcp.Callbacks

/-!
# Registration of a connection's channel

An open connection may stop and start reading at any time; its channel is watched
only while it is marked as added. `HandleClose` on a watched channel leaves it out
of the kernel's set, and every later step keeps it out, unless one of the two read
switches runs on the closed connection.
-/
namespace RyanNetwork.Tcp.Registration

open Lib World Callbacks

set_option autoImplicit false

/-- Whether the kernel reports events for the connection. -/
def Watched (w : World) : Prop := w.poller.interest w.conn.channel.fd ≠ none

structure Open (w : World) : Prop where
  isOpen : w.conn.state = .kConnected ∨ w.conn.state = .kDisconnecting
  linked : Watched w → w.conn.channel.index = kAdded
  closes : closeCalls w.trace = 0

structure Shut (w : World) : Prop where
  closed : w.conn.state = .kDisconnected
  noEvent : w.conn.channel.events = Events.kNoneEvent
  unwatched : ¬Watched w
  closes : closeCalls w.trace = 1

/-- Closed, with the channel still in the table of the poller. -/
structure Detached (w : World) : Prop extends Shut w where
  index : w.conn.channel.index = kDeleted
  owned : w.poller.channels w.conn.channel.fd = some w.conn.channel.addr

/-- The steps after which a closed connection stays out of the kernel's set: no
read switch runs once it is closed, and `HandleClose` finds the channel watched,
for `DisableAll` would register an unwatched one. -/
def Careful (w : World) (onRun : List Call) : PendingFunctor → Prop
  | .startReadInLoop => w.conn.state ≠ .kDisconnected
  | .stopReadInLoop => w.conn.state = .kDisconnected → w.conn.reading = false
  | .forceCloseInLoop => w.isOpen = true → Watched w ∧ Quiet w onRun
  | .writeComplete => w.conn.state = .kDisconnected → Quiet w onRun
  | .highWatermark _ => w.conn.state = .kDisconnected → Quiet w onRun
  | .sendInLoop _ => True
  | .shutdownInLoop => True

/-- The same for a poll event: the message callback runs on a closed connection
only after an `EPOLLHUP` that came with `EPOLLPRI`. -/
def CarefulEvent (w : World) (revents : Events) (a : Answers) : Prop :=
  Quiet w a.onDown ∧ (revents.epollhup = true → revents.epollin = false → Quiet w a.onMessage)

instance (w : World) : Decidable (Watched w) := inferInstanceAs (Decidable (_ ≠ _))

instance (w : World) (onRun : List Call) : DecidablePred (Careful w onRun)
  | .startReadInLoop => inferInstanceAs (Decidable (_ ≠ _))
  | .stopReadInLoop => inferInstanceAs (Decidable (_ → _))
  | .forceCloseInLoop => inferInstanceAs (Decidable (_ → _ ∧ _))
  | .writeComplete => inferInstanceAs (Decidable (_ → _))
  | .highWatermark _ => inferInstanceAs (Decidable (_ → _))
  | .sendInLoop _ => isTrue trivial
  | .shutdownInLoop => isTrue trivial

instance (w : World) (revents : Events) (a : Answers) : Decidable (CarefulEvent w revents a) :=
  inferInstanceAs (Decidable (_ ∧ _))

/-! ## Steps that keep a phase -/

theorem frame_open {w w' : World} (hf : Frame w w') (ho : Open w) : Open w' := by
  refine ⟨?_, ?_, hf.closes.trans ho.closes⟩
  · rw [hf.state]
    exact ho.isOpen
  · unfold Watched
    rw [hf.channel, hf.poller]
    exact ho.linked

theorem frame_shut {w w' : World} (hf : Frame w w') (hs : Shut w) : Shut w' := by
  refine ⟨hf.state.trans hs.closed, ?_, ?_, hf.closes.trans hs.closes⟩
  · rw [hf.channel]
    exact hs.noEvent
  · unfold Watched
    rw [hf.channel, hf.poller]
    exact hs.unwatched

theorem frame_detached {w w' : World} (hf : Frame w w') (hd : Detached w) : Detached w' := by
  refine ⟨frame_shut hf hd.toShut, ?_, ?_⟩
  · rw [hf.channel]
    exact hd.index
  · rw [hf.channel, hf.poller]
    exact hd.owned

theorem shut_not_open {w : World} (hs : Shut w) : w.isOpen = false := by simp [isOpen, hs.closed]

/-- Whatever a channel operation does, it goes through `UpdateChannel`. -/
theorem onChannel_open {w w' : World} {f : Events → Events}
    {op : EpollPoller → Channel → Except Fault (EpollPoller × Channel)}
    (hop : ∀ p c, op p c = p.updateChannel { c with events := f c.events })
    (ho : w.conn.state = .kConnected ∨ w.conn.state = .kDisconnecting)
    (hc : closeCalls w.trace = 0) (h : w.onChannel op = .ok w') : Open w' := by
  obtain ⟨p, c, hup, rfl⟩ := onChannel_ok h
  rw [hop] at hup
  exact ⟨ho, EpollPoller.updateChannel_linked hup, hc⟩

theorem startReadInLoop_open {w w' : World} (ho : Open w) (h : w.startReadInLoop = .ok w') :
    Open w' := by
  rcases startReadInLoop_ok h with rfl | ⟨v, hv, rfl⟩
  · exact ho
  · have hvo := onChannel_open (f := (·.or .kReadEvent)) (fun _ _ => rfl) ho.isOpen ho.closes hv
    exact ⟨hvo.isOpen, hvo.linked, hvo.closes⟩

theorem stopReadInLoop_open {w w' : World} (ho : Open w) (h : w.stopReadInLoop = .ok w') :
    Open w' := by
  rcases stopReadInLoop_ok h with rfl | ⟨v, hv, rfl⟩
  · exact ho
  · have hvo := onChannel_open (f := (·.and Events.kReadEvent.not)) (fun _ _ => rfl) ho.isOpen
      ho.closes hv
    exact ⟨hvo.isOpen, hvo.linked, hvo.closes⟩

theorem bufferRemaining_open {w w' : World} {data : List UInt8} {n r : Nat} (ho : Open w)
    (h : w.bufferRemaining data n r = .ok w') : Open w' := by
  rcases bufferRemaining_ok h with rfl | ⟨b, c, len, v, rfl, h⟩
  · exact ho
  · have hq := frame_open ((frame_queueIf w c (keepsReading_highWatermark len)).trans
      (frame_setOutput _ b)) ho
    rcases h with rfl | h
    · exact hq
    · exact onChannel_open (f := (·.or .kWriteEvent)) (fun _ _ => rfl) hq.isOpen hq.closes h

theorem sendInLoop_open {w w' : World} {data : List UInt8} {answer : WriteResult} (ho : Open w)
    (h : w.sendInLoop data answer = .ok w') : Open w' := by
  rcases sendInLoop_ok h with rfl | ⟨n, c, h⟩ | h
  · exact ho
  · apply bufferRemaining_open ?_ h
    exact frame_open ((frame_emit w rfl rfl).trans
      (frame_queueIf _ c keepsReading_writeComplete)) ho
  · exact bufferRemaining_open ho h

theorem open_kDisconnecting {w : World} (ho : Open w) : Open (w.setState .kDisconnecting) :=
  ⟨Or.inr rfl, ho.linked, ho.closes⟩

theorem open_queueInLoop {w : World} (f : PendingFunctor) (ho : Open w) :
    Open (w.queueInLoop f) :=
  ⟨ho.isOpen, ho.linked, ho.closes⟩

theorem shut_queueInLoop {w : World} (f : PendingFunctor) (hs : Shut w) :
    Shut (w.queueInLoop f) :=
  ⟨hs.closed, hs.noEvent, hs.unwatched, hs.closes⟩

theorem call_open {w w' : World} {c : Call} (ho : Open w) (h : w.call c = .ok w') : Open w' := by
  cases c with
  | send data answer =>
    simp only [call] at h
    split at h
    · exact sendInLoop_open ho h
    · cases h
      exact ho
  | shutdown =>
    simp only [call] at h
    split at h
    · cases h
      exact frame_open (frame_shutdownInLoop _) (open_kDisconnecting ho)
    · cases h
      exact ho
  | forceClose =>
    simp only [call] at h
    split at h
    · cases h
      exact open_queueInLoop _ (open_kDisconnecting ho)
    · cases h
      exact ho
  | startRead => exact startReadInLoop_open ho h
  | stopRead => exact stopReadInLoop_open ho h

/-- Calls of another thread only queue functors. -/
theorem callFromOther_open {w : World} (c : Call) (ho : Open w) : Open (w.callFromOther c) := by
  cases c with
  | send data answer =>
    simp only [callFromOther]
    split
    · exact open_queueInLoop _ ho
    · exact ho
  | shutdown =>
    simp only [callFromOther]
    split
    · exact open_queueInLoop _ (open_kDisconnecting ho)
    · exact ho
  | forceClose =>
    simp only [callFromOther]
    split
    · exact open_queueInLoop _ (open_kDisconnecting ho)
    · exact ho
  | startRead => exact open_queueInLoop _ ho
  | stopRead => exact open_queueInLoop _ ho

theorem callFromOther_shut {w : World} (c : Call) (hs : Shut w) : Shut (w.callFromOther c) := by
  cases c with
  | send data answer => simpa [callFromOther, hs.closed] using hs
  | shutdown => simpa [callFromOther, hs.closed] using hs
  | forceClose => simpa [callFromOther, shut_not_open hs] using hs
  | startRead => exact shut_queueInLoop _ hs
  | stopRead => exact shut_queueInLoop _ hs

theorem calls_open {w w' : World} {cs : List Call} (ho : Open w) (h : w.calls cs = .ok w') :
    Open w' := by
  induction cs generalizing w with
  | nil =>
    cases h
    exact ho
  | cons c cs ih =>
    obtain ⟨v, hv, h⟩ := bind_ok h
    exact ih (call_open ho hv) h

theorem connectEstablished_open {w w' : World} {onUp : List Call} (hc : closeCalls w.trace = 0)
    (h : w.connectEstablished onUp = .ok w') : Open w' := by
  obtain ⟨v, hv, h⟩ := bind_ok h
  have hvo : Open v := onChannel_open (w := w.setState .kConnected) (f := (·.or .kReadEvent))
    (fun _ _ => rfl) (.inl rfl) hc hv
  have hemit : closeCalls (v.emit (.connectionCallback v.conn.state)).trace = 0 := by
    rw [emit_trace, closeCalls, List.count_append]
    exact congrArg (· + 0) hvo.closes
  exact calls_open (w := v.emit _) ⟨hvo.isOpen, hvo.linked, hemit⟩ h

/-! ## Closing -/

/-- `DisableAll` of a watched channel takes it out of the kernel's set. -/
theorem disableAll_watched {w v : World} (hi : w.conn.channel.index = kAdded)
    (h : w.onChannel Channel.disableAll = .ok v) :
    v.conn.state = w.conn.state ∧ v.conn.reading = w.conn.reading ∧ v.trace = w.trace ∧
      v.conn.channel.events = Events.kNoneEvent ∧ ¬Watched v ∧
      v.conn.channel.index = kDeleted ∧
      v.poller.channels v.conn.channel.fd = some v.conn.channel.addr := by
  obtain ⟨p, c, hup, rfl⟩ := onChannel_ok h
  have hnone : w.conn.channel.events.and Events.kNoneEvent = Events.kNoneEvent := by
    simp [Events.and, Events.kNoneEvent]
  refine ⟨rfl, rfl, rfl, ?_⟩
  rcases EpollPoller.updateChannel_cases hup with ⟨hn, -⟩ | ⟨hn, -⟩ | ⟨-, hown, -, rfl, rfl⟩ |
    ⟨-, -, hne, -⟩
  · exact absurd (hi.symm.trans hn) (by decide)
  · exact absurd (hi.symm.trans hn) (by decide)
  · exact ⟨hnone, not_not_intro (Function.update_self ..), rfl, hown⟩
  · exact absurd hnone hne

/-- `HandleClose` of a watched connection. -/
theorem handleClose_detached {w w' : World} {onDown : List Call} (ho : Open w) (hw : Watched w)
    (hq : Quiet w onDown) (h : w.handleClose onDown = .ok w') :
    Detached w' ∧ w'.conn.reading = w.conn.reading := by
  have hopen : w.isOpen = true := (isOpen_iff w).mpr ho.isOpen
  simp only [handleClose, hopen, ↓reduceIte] at h
  obtain ⟨v, hv, h⟩ := bind_ok h
  obtain ⟨u, hc, h⟩ := bind_ok h
  obtain ⟨hstate, hread, htrace, hnone, hun, hindex, hown⟩ :=
    disableAll_watched (w := w.setState .kDisconnected) (ho.linked hw) hv
  have hqv : Quiet (v.emit (.connectionCallback v.conn.state)) onDown := by
    rw [Quiet, emit_conn, hread]
    exact hq
  rw [calls_closed (by rw [emit_conn, hstate]; rfl) (by rw [emit_conn, hnone]) hqv] at hc
  cases hc
  cases h
  refine ⟨⟨⟨hstate, hnone, hun, ?_⟩, hindex, hown⟩, hread⟩
  rw [emit_trace, emit_trace, htrace, closeCalls, List.count_append, List.count_append]
  exact congrArg (· + 0 + 1) ho.closes

theorem handleRead_open {w w' : World} {answer : Buffer.ReadResult} {onMessage onDown : List Call}
    (ho : Open w) (hw : Watched w) (hq : Quiet w onDown)
    (h : w.handleRead answer onMessage onDown = .ok w') : Open w' ∨ Detached w' := by
  unfold World.handleRead at h
  split at h
  · exact Or.inr (handleClose_detached ho hw hq h).1
  · obtain ⟨b, -, h⟩ := bind_ok h
    refine Or.inl (calls_open ?_ h)
    exact frame_open ((frame_setInput w b).trans (frame_emit _ rfl rfl)) ho
  · cases h
    exact Or.inl ho

/-- Reading on a closed connection: a second `HandleClose` fails its assertion. -/
theorem handleRead_closed {w w' : World} {answer : Buffer.ReadResult}
    {onMessage onDown : List Call} (hs : w.conn.state = .kDisconnected)
    (he : w.conn.channel.events = Events.kNoneEvent) (hq : Quiet w onMessage)
    (h : w.handleRead answer onMessage onDown = .ok w') :
    w' = w ∨ ∃ b, w' = (w.setInput b).emit .messageCallback := by
  unfold World.handleRead at h
  split at h
  · simp [handleClose, isOpen, hs] at h
  · obtain ⟨b, -, h⟩ := bind_ok h
    rw [calls_closed (w := (w.setInput b).emit .messageCallback) hs he hq] at h
    cases h
    exact Or.inr ⟨b, rfl⟩
  · cases h
    exact Or.inl rfl

theorem handleWrite_closed {w w' : World} {answer : WriteResult}
    (he : w.conn.channel.events = Events.kNoneEvent) (h : w.handleWrite answer = .ok w') :
    w' = w := by
  have hn : w.conn.channel.isWriting = false := by
    rw [Channel.isWriting, he]
    decide
  simp only [World.handleWrite, hn, Bool.false_eq_true, ↓reduceIte] at h
  cases h
  rfl

theorem handleRead_detached {w w' : World} {answer : Buffer.ReadResult}
    {onMessage onDown : List Call} (hd : Detached w) (hq : Quiet w onMessage)
    (h : w.handleRead answer onMessage onDown = .ok w') : Detached w' := by
  rcases handleRead_closed hd.closed hd.noEvent hq h with rfl | ⟨b, rfl⟩
  · exact hd
  · exact frame_detached ((frame_setInput w b).trans (frame_emit _ rfl rfl)) hd

theorem afterDrain_open {w w' : World} (ho : Open w) (h : w.afterDrain = .ok w') : Open w' := by
  obtain ⟨v, hv, h⟩ := bind_ok h
  have hvo := onChannel_open (f := (·.and Events.kWriteEvent.not)) (fun _ _ => rfl) ho.isOpen
    ho.closes hv
  have hq : Open (v.queueIf v.conn.writeCompleteCallback .writeComplete) :=
    frame_open (frame_queueIf _ _ keepsReading_writeComplete) hvo
  cases h
  split
  · exact frame_open (frame_shutdownInLoop _) hq
  · exact hq

theorem handleWrite_open {w w' : World} {answer : WriteResult} (ho : Open w)
    (h : w.handleWrite answer = .ok w') : Open w' := by
  rcases handleWrite_ok h with rfl | ⟨-, offered, n, -, h⟩
  · exact ho
  · have hd : Open ((w.emit (.wrote (offered.take n))).setOutput
        (w.conn.outputBuffer.retrieve n)) :=
      frame_open ((frame_emit w rfl rfl).trans (frame_setOutput _ _)) ho
    rcases onlyIf_ok h with ⟨-, h⟩ | ⟨-, rfl⟩
    · exact afterDrain_open hd h
    · exact hd

/-- One poll event takes a watched, open connection at most once through `HandleClose`. -/
theorem handleEvent_open {w w' : World} {revents : Events} {a : Answers} (ho : Open w)
    (hw : Watched w) (hc : CarefulEvent w revents a) (h : w.handleEvent revents a = .ok w') :
    Open w' ∨ Detached w' := by
  obtain ⟨u, hu, h⟩ := bind_ok h
  obtain ⟨v, hv, h⟩ := bind_ok h
  have hvp : Open v ∨ Detached v := by
    rcases onlyIf_ok hu with ⟨hb, hcl⟩ | ⟨-, rfl⟩
    · obtain ⟨hus, hread⟩ := handleClose_detached ho hw hc.1 hcl
      rw [Bool.and_eq_true, Bool.not_eq_true'] at hb
      have hqm := hc.2 hb.1 hb.2
      rw [Quiet, ← hread] at hqm
      rcases onlyIf_ok hv with ⟨-, hr⟩ | ⟨-, rfl⟩
      · exact Or.inr (handleRead_detached hus hqm hr)
      · exact Or.inr hus
    · rcases onlyIf_ok hv with ⟨-, hr⟩ | ⟨-, rfl⟩
      · exact handleRead_open ho hw hc.1 hr
      · exact Or.inl ho
  rcases onlyIf_ok h with ⟨-, hwr⟩ | ⟨-, rfl⟩
  · refine hvp.imp (handleWrite_open · hwr) fun hvs => ?_
    rw [handleWrite_closed hvs.noEvent hwr]
    exact hvs
  · exact hvp

theorem runFunctor_open {w w' : World} {answer : WriteResult} {onRun : List Call}
    {f : PendingFunctor} (ho : Open w) (hc : Careful w onRun f)
    (h : w.runFunctor answer onRun f = .ok w') : Open w' ∨ Detached w' := by
  cases f with
  | sendInLoop message => exact Or.inl (sendInLoop_open ho h)
  | shutdownInLoop =>
    cases h
    exact Or.inl (frame_open (frame_shutdownInLoop w) ho)
  | forceCloseInLoop =>
    have hopen : w.isOpen = true := (isOpen_iff w).mpr ho.isOpen
    obtain ⟨hw, hq⟩ := hc hopen
    simp only [World.runFunctor, World.forceCloseInLoop, hopen, ↓reduceIte] at h
    exact Or.inr (handleClose_detached ho hw hq h).1
  | startReadInLoop => exact Or.inl (startReadInLoop_open ho h)
  | stopReadInLoop => exact Or.inl (stopReadInLoop_open ho h)
  | writeComplete => exact Or.inl (calls_open ho h)
  | highWatermark len => exact Or.inl (calls_open ho h)

/-- On a closed connection a functor at most half-closes the socket once more. -/
theorem runFunctor_closed {w w' : World} {answer : WriteResult} {onRun : List Call}
    {f : PendingFunctor} (hs : w.conn.state = .kDisconnected)
    (he : w.conn.channel.events = Events.kNoneEvent) (hc : Careful w onRun f)
    (h : w.runFunctor answer onRun f = .ok w') : w' = w ∨ w' = w.emit .shutdownWrite := by
  have hcalls (hq : Quiet w onRun) (hr : w.calls onRun = .ok w') : w' = w := by
    rw [calls_closed hs he hq] at hr
    cases hr
    rfl
  cases f with
  | sendInLoop message =>
    simp only [World.runFunctor, World.sendInLoop, hs, ↓reduceIte] at h
    cases h
    exact Or.inl rfl
  | shutdownInLoop =>
    cases h
    unfold World.shutdownInLoop
    split
    · exact Or.inl rfl
    · exact Or.inr rfl
  | forceCloseInLoop =>
    have hn : w.isOpen = false := by simp [isOpen, hs]
    simp only [World.runFunctor, World.forceCloseInLoop, hn, Bool.false_eq_true, ↓reduceIte] at h
    cases h
    exact Or.inl rfl
  | startReadInLoop => exact absurd hs hc
  | stopReadInLoop =>
    have hq : Quiet w [.stopRead] := ⟨by simp, by simp [hc hs]⟩
    have hsame : w.call .stopRead = .ok w := call_closed hs he hq
    change w.call .stopRead = .ok w' at h
    rw [hsame] at h
    cases h
    exact Or.inl rfl
  | writeComplete => exact Or.inl (hcalls (hc hs) h)
  | highWatermark len => exact Or.inl (hcalls (hc hs) h)

theorem runFunctor_shut {w w' : World} {answer : WriteResult} {onRun : List Call}
    {f : PendingFunctor} (hs : Shut w) (hc : Careful w onRun f)
    (h : w.runFunctor answer onRun f = .ok w') : Shut w' := by
  rcases runFunctor_closed hs.closed hs.noEvent hc h with rfl | rfl
  · exact hs
  · exact frame_shut (frame_emit w rfl rfl) hs

/-- On a closed connection `ConnectDestroyed` is `channel_->Remove()` alone. -/
theorem disconnect_closed {w : World} (onDown : List Call) (hs : w.conn.state = .kDisconnected) :
    w.disconnect onDown = .ok w := by
  simp [disconnect, hs]

/-- `channel_->Remove()` of an unwatched channel changes its index and the table alone. -/
theorem remove_unwatched {w w' : World} (hn : ¬Watched w)
    (h : w.onChannel Channel.remove = .ok w') :
    w'.conn.state = w.conn.state ∧ w'.conn.channel.events = w.conn.channel.events ∧ ¬Watched w' ∧
      w'.pending = w.pending ∧ w'.trace = w.trace := by
  obtain ⟨p, c, hrem, rfl⟩ := onChannel_ok h
  obtain ⟨hfd, he, hn'⟩ := EpollPoller.removeChannel_keeps hrem (not_not.mp hn)
  refine ⟨rfl, he, not_not_intro ?_, rfl, rfl⟩
  change p.interest c.fd = none
  rw [hfd]
  exact hn'

/-- `ConnectDestroyed` after `HandleClose` only takes the channel out of the table. -/
theorem connectDestroyed_shut {w w' : World} {onDown : List Call} (hs : Shut w)
    (h : w.connectDestroyed onDown = .ok w') : Shut w' := by
  obtain ⟨v, hv, h⟩ := bind_ok h
  rw [disconnect_closed onDown hs.closed] at hv
  cases hv
  obtain ⟨hst, he, hn, -, ht⟩ := remove_unwatched hs.unwatched h
  refine ⟨hst.trans hs.closed, he.trans hs.noEvent, hn, ?_⟩
  rw [ht]
  exact hs.closes

end RyanNetwork.Tcp.Registration
