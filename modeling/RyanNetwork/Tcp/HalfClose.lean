import RyanNetwork.Tcp.Stream

/-!
# The half-close

`Shutdown` half-closes the socket at once or leaves it to the drain in
`HandleWrite`, whichever the write interest says. On an open connection the write
interest is on exactly while bytes are buffered, so the half-close comes after all
accepted bytes, and none is forgotten. What the guard of `SendInLoop` does not cover
is a send that was queued before: it runs in `kDisconnecting`, after the half-close.
-/
namespace RyanNetwork.Tcp.HalfClose

open Lib World Tcp.Stream

set_option autoImplicit false

/-! ## Interleavings -/

/-- One step of a connection between `ConnectEstablished` and `ConnectDestroyed`. The
calls that a message or write callback makes follow as steps of their own; those of
the connection callback in `HandleClose` belong to its step. -/
inductive CloseStep where
  | call (c : Call)
  | callFromOther (c : Call)
  | functor (answer : WriteResult) (onDown : List Call)
  | handleRead (answer : Buffer.ReadResult) (onDown : List Call)
  | handleWrite (answer : WriteResult)
  | handleClose (onDown : List Call)

/-- Functors are taken from the front of the queue. -/
def Step (w : World) : CloseStep → World → Prop
  | .call c, w' => w.call c = .ok w'
  | .callFromOther c, w' => w' = w.callFromOther c
  | .functor answer onDown, w' => ∃ f rest, w.pending = f :: rest ∧
      (onDown = [] ∨ f = .forceCloseInLoop) ∧
      World.runFunctor { w with pending := rest } answer onDown f = .ok w'
  | .handleRead answer onDown, w' => w.handleRead answer [] onDown = .ok w'
  | .handleWrite answer, w' => w.handleWrite answer = .ok w'
  | .handleClose onDown, w' => w.handleClose onDown = .ok w'

/-- The bytes that a queued `SendInLoop` adds to the stream. -/
def functorAccepts (w : World) (answer : WriteResult) : PendingFunctor → List UInt8
  | .sendInLoop message =>
    if w.conn.state = .kDisconnected then [] else accepted w (.sendInLoop message answer)
  | _ => []

/-- The bytes that a `SendInLoop` of the step adds to the stream. -/
def accepts (w : World) : CloseStep → List UInt8
  | .call (.send data answer) =>
    if w.conn.state = .kConnected then accepted w (.sendInLoop data answer) else []
  | .functor answer _ =>
    match w.pending with
    | f :: _ => functorAccepts w answer f
    | [] => []
  | _ => []

/-- A step together with the bytes accepted so far. -/
def StepAccepting (s : World × List UInt8) (a : CloseStep) (t : World × List UInt8) : Prop :=
  Step s.1 a t.1 ∧ t.2 = s.2 ++ accepts s.1 a

/-- How often `SHUT_WR` was issued. -/
def halfCloses (trace : List Effect) : Nat := trace.count .shutdownWrite

/-! ## Operations that issue no half-close -/

/-- `w'` is `w` after work that neither changes the state, nor half-closes, nor queues
a send or a shutdown. -/
structure Silent (w w' : World) : Prop where
  state : w'.conn.state = w.conn.state
  issued : halfCloses w'.trace = halfCloses w.trace
  queued : ∀ f ∈ w'.pending, f ∈ w.pending ∨ f ≠ .shutdownInLoop

theorem Silent.refl (w : World) : Silent w w := ⟨rfl, rfl, fun _ => Or.inl⟩

theorem Silent.trans {u v w : World} (h : Silent u v) (h' : Silent v w) : Silent u w := by
  refine ⟨h'.state.trans h.state, h'.issued.trans h.issued, ?_⟩
  intro f hf
  rcases h'.queued f hf with hv | hne
  · exact h.queued f hv
  · exact Or.inr hne

theorem silent_emit (w : World) {e : Effect} (he : e ≠ .shutdownWrite) : Silent w (w.emit e) := by
  refine ⟨by simp, ?_, fun _ => Or.inl⟩
  rw [emit_trace, halfCloses, halfCloses, List.count_append, List.count_singleton]
  simp [he]

theorem silent_queueIf (w : World) (c : Bool) {f : PendingFunctor} (hf : f ≠ .shutdownInLoop) :
    Silent w (w.queueIf c f) := by
  refine ⟨by simp, by simp, ?_⟩
  intro g hg
  cases c with
  | false => exact Or.inl hg
  | true =>
    rcases List.mem_append.mp hg with hw | hnew
    · exact Or.inl hw
    · rw [List.mem_singleton.mp hnew]
      exact Or.inr hf

theorem silent_onChannel {w w' : World}
    {op : EpollPoller → Channel → Except Fault (EpollPoller × Channel)}
    (h : w.onChannel op = .ok w') : Silent w w' := by
  obtain ⟨p, c, -, rfl⟩ := onChannel_ok h
  exact ⟨rfl, rfl, fun _ => Or.inl⟩

theorem silent_bufferRemaining {w w' : World} {data : List UInt8} {n r : Nat}
    (h : w.bufferRemaining data n r = .ok w') : Silent w w' := by
  rcases bufferRemaining_ok h with rfl | ⟨b, c, len, v, rfl, h⟩
  · exact Silent.refl _
  · have hq := silent_queueIf w c (f := .highWatermark len) (by simp)
    have hb : Silent w ((w.queueIf c (.highWatermark len)).setOutput b) :=
      hq.trans ⟨by simp, by simp, fun _ => Or.inl⟩
    rcases h with rfl | h
    · exact hb
    · exact hb.trans (silent_onChannel h)

theorem silent_sendInLoop {w w' : World} {data : List UInt8} {answer : WriteResult}
    (h : w.sendInLoop data answer = .ok w') : Silent w w' := by
  rcases sendInLoop_ok h with rfl | ⟨n, c, h⟩ | h
  · exact Silent.refl _
  · have he := silent_emit w (e := .wrote (data.take n)) (by simp)
    exact (he.trans (silent_queueIf _ c (by simp))).trans (silent_bufferRemaining h)
  · exact silent_bufferRemaining h

theorem silent_startReadInLoop {w w' : World} (h : w.startReadInLoop = .ok w') : Silent w w' := by
  rcases startReadInLoop_ok h with rfl | ⟨v, hv, rfl⟩
  · exact Silent.refl _
  · exact (silent_onChannel hv).trans ⟨rfl, rfl, fun _ => Or.inl⟩

theorem silent_stopReadInLoop {w w' : World} (h : w.stopReadInLoop = .ok w') : Silent w w' := by
  rcases stopReadInLoop_ok h with rfl | ⟨v, hv, rfl⟩
  · exact Silent.refl _
  · exact (silent_onChannel hv).trans ⟨rfl, rfl, fun _ => Or.inl⟩

/-- A call on the loop thread does nothing to a closed connection but read from it. -/
theorem silent_call_closed {w w' : World} {c : Call} (hs : w.conn.state = .kDisconnected)
    (h : w.call c = .ok w') : Silent w w' := by
  cases c with
  | send data answer =>
    simp only [World.call, hs, reduceCtorEq, ↓reduceIte] at h
    cases h
    exact Silent.refl w
  | shutdown =>
    simp only [World.call, hs, reduceCtorEq, ↓reduceIte] at h
    cases h
    exact Silent.refl w
  | forceClose =>
    simp only [World.call, isOpen, hs, reduceCtorEq, decide_false, Bool.or_self, Bool.false_eq_true,
      ↓reduceIte] at h
    cases h
    exact Silent.refl w
  | startRead => exact silent_startReadInLoop h
  | stopRead => exact silent_stopReadInLoop h

theorem silent_calls_closed {w w' : World} {cs : List Call} (hs : w.conn.state = .kDisconnected)
    (h : w.calls cs = .ok w') : Silent w w' := by
  induction cs generalizing w with
  | nil =>
    cases h
    exact Silent.refl _
  | cons c cs ih =>
    obtain ⟨v, hv, h⟩ := bind_ok h
    have hc := silent_call_closed hs hv
    exact hc.trans (ih (hc.state.trans hs) h)

/-- `HandleClose` leaves the connection closed, without a half-close. -/
theorem handleClose_disconnects {w w' : World} {onDown : List Call}
    (h : w.handleClose onDown = .ok w') :
    w.isOpen = true ∧ w'.conn.state = .kDisconnected ∧ halfCloses w'.trace = halfCloses w.trace := by
  unfold World.handleClose at h
  split at h
  · rename_i hopen
    obtain ⟨v, hv, h⟩ := bind_ok h
    obtain ⟨u, hu, h⟩ := bind_ok h
    cases h
    have h1 := silent_onChannel hv
    have h2 := h1.trans (silent_emit v (e := .connectionCallback v.conn.state) (by simp))
    have hdown : v.conn.state = .kDisconnected := h1.state
    have h3 := h2.trans (silent_calls_closed (by simpa using hdown) hu)
    have h4 := h3.trans (silent_emit u (e := .closeCallback) (by simp))
    exact ⟨hopen, h4.state, h4.issued⟩
  · cases h

/-! ## The half-close is neither early nor forgotten -/

/-- A requested half-close was issued, is left to the drain of a buffer that is not
empty, or has become void. -/
def Requested (w : World) : Prop :=
  Effect.shutdownWrite ∈ w.trace ∨ w.conn.state = .kDisconnected ∨
    w.conn.state = .kDisconnecting ∧ w.conn.channel.isWriting = true

/-- What a step of an open connection does about the half-close. -/
structure Flushed (w w' : World) : Prop where
  issue : halfCloses w.trace < halfCloses w'.trace →
    w'.conn.outputBuffer.content = [] ∧ w'.conn.state ≠ .kConnected
  keep : Requested w → Requested w'
  queue : .shutdownInLoop ∈ w'.pending → .shutdownInLoop ∈ w.pending ∨ w'.conn.state ≠ .kConnected
  forward : w.conn.state ≠ .kConnected → w'.conn.state ≠ .kConnected

theorem mem_of_halfCloses {t u : List Effect} (h : halfCloses t ≤ halfCloses u)
    (hm : Effect.shutdownWrite ∈ t) : Effect.shutdownWrite ∈ u := by
  have hpos : 0 < halfCloses t := List.count_pos_iff.mpr hm
  exact List.count_pos_iff.mp (Nat.lt_of_lt_of_le hpos h)

theorem Silent.flushed {w w' : World} (h : Silent w w')
    (hw : w.conn.channel.isWriting = true → w'.conn.channel.isWriting = true) : Flushed w w' := by
  constructor
  · intro hlt
    rw [h.issued] at hlt
    exact absurd hlt (Nat.lt_irrefl _)
  · intro hr
    rcases hr with hm | hd | ⟨hs, hwr⟩
    · exact Or.inl (mem_of_halfCloses (Nat.le_of_eq h.issued.symm) hm)
    · exact Or.inr (Or.inl (h.state.trans hd))
    · exact Or.inr (Or.inr ⟨h.state.trans hs, hw hwr⟩)
  · intro hq
    exact (h.queued _ hq).imp_right fun hne => absurd rfl hne
  · intro hs
    rw [h.state]
    exact hs

/-- A step that ends in `kDisconnected` without a half-close. -/
theorem flushed_closed {w w' : World} (hs : w'.conn.state = .kDisconnected)
    (hi : halfCloses w'.trace = halfCloses w.trace) : Flushed w w' := by
  constructor
  · intro hlt
    rw [hi] at hlt
    exact absurd hlt (Nat.lt_irrefl _)
  · exact fun _ => Or.inr (Or.inl hs)
  · intro _
    rw [hs]
    exact Or.inr (by simp)
  · intro _
    rw [hs]
    simp

theorem streaming_ne {w : World} {acc : List UInt8} (hs : Streaming w acc) :
    w.conn.state ≠ .kDisconnected := by
  rcases hs.isOpen with h | h
  · rw [h]
    simp
  · rw [h]
    simp

/-- `SendInLoop` never drops the write interest. -/
theorem sendInLoop_writing {w w' : World} {acc data : List UInt8} {answer : WriteResult}
    (hs : Streaming w acc) (h : w.sendInLoop data answer = .ok w')
    (hw : w.conn.channel.isWriting = true) : w'.conn.channel.isWriting = true := by
  have hdirect : w.writesDirectly = false := by simp [writesDirectly, hw]
  unfold World.sendInLoop at h
  rw [if_neg (streaming_ne hs), if_neg (by rw [hdirect]; decide)] at h
  obtain ⟨-, -, -, -, hwr⟩ := bufferRemaining_spec (n := 0) hs.valid h
  exact hwr.mpr (Or.inl hw)

theorem sendInLoop_flushed {w w' : World} {acc data : List UInt8} {answer : WriteResult}
    (hs : Streaming w acc) (h : w.sendInLoop data answer = .ok w') : Flushed w w' :=
  (silent_sendInLoop h).flushed (sendInLoop_writing hs h)

/-- `ShutdownInLoop` on an open connection half-closes an empty stream, or leaves it to
the drain. -/
theorem shutdownInLoop_requested {w : World} (hs : w.conn.state = .kDisconnecting) :
    Requested w.shutdownInLoop := by
  unfold World.shutdownInLoop
  split
  · rename_i hw
    exact Or.inr (Or.inr ⟨hs, hw⟩)
  · refine Or.inl ?_
    rw [emit_trace]
    exact List.mem_append_right _ (List.mem_singleton.mpr rfl)

theorem shutdownInLoop_empty {w : World} {acc : List UInt8} (hs : Streaming w acc)
    (h : halfCloses w.trace < halfCloses w.shutdownInLoop.trace) :
    w.shutdownInLoop.conn.outputBuffer.content = [] := by
  rw [(shutdownInLoop_fields w).1]
  by_contra hne
  have hw : w.conn.channel.isWriting = true := hs.writing.mpr hne
  unfold World.shutdownInLoop at h
  rw [if_pos hw] at h
  exact absurd h (Nat.lt_irrefl _)

theorem shutdownInLoop_flushed {w : World} {acc : List UInt8} (hs : Streaming w acc)
    (hd : w.conn.state = .kDisconnecting) : Flushed w w.shutdownInLoop := by
  have hstate : w.shutdownInLoop.conn.state = .kDisconnecting := by
    rw [(shutdownInLoop_fields w).1]
    exact hd
  constructor
  · intro hlt
    rw [hstate]
    exact ⟨shutdownInLoop_empty hs hlt, by simp⟩
  · exact fun _ => shutdownInLoop_requested hd
  · intro _
    rw [hstate]
    exact Or.inr (by simp)
  · intro _
    rw [hstate]
    simp

/-- Turning the state to `kDisconnecting` first changes nothing of this. -/
theorem Flushed.of_setState {w w' : World} (hopen : w.conn.state ≠ .kDisconnected)
    (h : Flushed (w.setState .kDisconnecting) w') : Flushed w w' := by
  constructor
  · exact h.issue
  · intro hr
    apply h.keep
    rcases hr with hm | hd | ⟨-, hw⟩
    · exact Or.inl hm
    · exact absurd hd hopen
    · exact Or.inr (Or.inr ⟨rfl, hw⟩)
  · exact h.queue
  · intro _
    apply h.forward
    simp [setState]

theorem queueInLoop_flushed {w : World} {f : PendingFunctor} (hd : w.conn.state = .kDisconnecting) :
    Flushed w (w.queueInLoop f) := by
  constructor
  · intro hlt
    exact absurd hlt (Nat.lt_irrefl _)
  · exact id
  · intro _
    refine Or.inr ?_
    show w.conn.state ≠ .kConnected
    rw [hd]
    simp
  · exact id

theorem Silent.then {u v w : World} (h : Silent u v)
    (hw : u.conn.channel.isWriting = true → v.conn.channel.isWriting = true) (h' : Flushed v w) :
    Flushed u w := by
  have hf := h.flushed hw
  constructor
  · intro hlt
    apply h'.issue
    rw [h.issued]
    exact hlt
  · exact fun hr => h'.keep (hf.keep hr)
  · intro hq
    rcases h'.queue hq with hv | hs
    · exact Or.inl ((h.queued _ hv).resolve_right fun hne => hne rfl)
    · exact Or.inr hs
  · exact fun hs => h'.forward (hf.forward hs)

/-- The end of a drain half-closes if it was asked to. -/
theorem afterDrain_flushed {w w' : World} (hnil : w.conn.outputBuffer.content = [])
    (hopen : w.conn.state ≠ .kDisconnected) (h : w.afterDrain = .ok w') : Flushed w w' := by
  obtain ⟨v, hv, h⟩ := bind_ok h
  have hsv := silent_onChannel hv
  obtain ⟨p, c, -, rfl⟩ := onChannel_ok hv
  cases h
  generalize hu : World.queueIf _ _ _ = u
  have hsu : Silent w u := by
    rw [← hu]
    exact hsv.trans (silent_queueIf _ _ (by simp))
  have hout : u.conn.outputBuffer.content = [] := by
    rw [← hu, queueIf_conn]
    exact hnil
  have hstate := hsu.state
  split
  · rename_i hd
    constructor
    · intro _
      rw [(shutdownInLoop_fields u).1, hd]
      exact ⟨hout, by simp⟩
    · exact fun _ => shutdownInLoop_requested hd
    · intro _
      rw [(shutdownInLoop_fields u).1, hd]
      exact Or.inr (by simp)
    · intro _
      rw [(shutdownInLoop_fields u).1, hd]
      simp
  · rename_i hd
    rw [hstate] at hd
    constructor
    · intro hlt
      rw [hsu.issued] at hlt
      exact absurd hlt (Nat.lt_irrefl _)
    · intro hr
      rcases hr with hm | hdown | ⟨hs, -⟩
      · exact Or.inl (mem_of_halfCloses (Nat.le_of_eq hsu.issued.symm) hm)
      · exact absurd hdown hopen
      · exact absurd hs hd
    · intro hq
      exact (hsu.queued _ hq).imp_right fun hne => absurd rfl hne
    · intro hs
      rw [hstate]
      exact hs

theorem handleWrite_flushed {w w' : World} {acc : List UInt8} {answer : WriteResult}
    (hs : Streaming w acc) (h : w.handleWrite answer = .ok w') : Flushed w w' := by
  rcases handleWrite_ok h with rfl | ⟨-, offered, n, -, h⟩
  · exact (Silent.refl _).flushed id
  · obtain ⟨hv, hc⟩ := Buffer.retrieve_spec hs.valid n
    have hpart : Silent w ((w.emit (.wrote (offered.take n))).setOutput
        (w.conn.outputBuffer.retrieve n)) :=
      (silent_emit w (e := .wrote (offered.take n)) (by simp)).trans
        ⟨by simp, by simp, fun _ => Or.inl⟩
    have hsame : w.conn.channel.isWriting = true → ((w.emit (.wrote
        (offered.take n))).setOutput (w.conn.outputBuffer.retrieve n)).conn.channel.isWriting
        = true := by
      rw [setOutput_channel, emit_conn]
      exact id
    rcases onlyIf_ok h with ⟨hz, h⟩ | ⟨-, rfl⟩
    · apply hpart.then hsame
      apply afterDrain_flushed ?_ ?_ h
      · rw [setOutput_output, Buffer.content_eq_nil hv]
        simpa using hz
      · rw [setOutput_state, emit_conn]
        exact streaming_ne hs
    · exact hpart.flushed hsame

/-! ## Reading leaves the outgoing stream alone -/

/-- `w'` has the stream and the write interest of `w`. -/
structure SameStream (w w' : World) : Prop where
  silent : Silent w w'
  output : w'.conn.outputBuffer = w.conn.outputBuffer
  handedOver : handed w'.trace = handed w.trace
  writing : w'.conn.channel.isWriting = w.conn.channel.isWriting

theorem SameStream.refl (w : World) : SameStream w w := ⟨Silent.refl w, rfl, rfl, rfl⟩

theorem SameStream.flushed {w w' : World} (h : SameStream w w') : Flushed w w' :=
  h.silent.flushed fun hw => h.writing.trans hw

theorem SameStream.streaming {w w' : World} {acc : List UInt8} (h : SameStream w w')
    (hs : Streaming w acc) : Streaming w' acc := by
  constructor
  · rw [h.silent.state]
    exact hs.isOpen
  · rw [h.output]
    exact hs.valid
  · rw [h.handedOver, h.output]
    exact hs.stream
  · rw [h.writing, h.output]
    exact hs.writing

theorem isWriting_and_not_read (e : Events) : (e.and Events.kReadEvent.not).and Events.kWriteEvent =
    e.and Events.kWriteEvent := by
  obtain ⟨a, b, c, d, f⟩ := e
  simp [Events.not, Events.and, Events.kWriteEvent, Events.kReadEvent]

theorem sameStream_startReadInLoop {w w' : World} (h : w.startReadInLoop = .ok w') :
    SameStream w w' := by
  have hsilent := silent_startReadInLoop h
  rcases startReadInLoop_ok h with rfl | ⟨v, hv, rfl⟩
  · exact SameStream.refl _
  · obtain ⟨p, c, hop, rfl⟩ := onChannel_ok hv
    have he := (EpollPoller.updateChannel_keeps hop).2.2
    refine ⟨hsilent, rfl, rfl, ?_⟩
    simp only [Channel.isWriting, setReading, he, isWriting_or_read]

theorem sameStream_stopReadInLoop {w w' : World} (h : w.stopReadInLoop = .ok w') :
    SameStream w w' := by
  have hsilent := silent_stopReadInLoop h
  rcases stopReadInLoop_ok h with rfl | ⟨v, hv, rfl⟩
  · exact SameStream.refl _
  · obtain ⟨p, c, hop, rfl⟩ := onChannel_ok hv
    have he := (EpollPoller.updateChannel_keeps hop).2.2
    refine ⟨hsilent, rfl, rfl, ?_⟩
    simp only [Channel.isWriting, setReading, he, isWriting_and_not_read]

theorem sameStream_message (w : World) (b : Buffer) :
    SameStream w ((w.setInput b).emit .messageCallback) := by
  have hin : Silent w (w.setInput b) := ⟨rfl, rfl, fun _ => Or.inl⟩
  refine ⟨hin.trans (silent_emit _ (by simp)), rfl, ?_, rfl⟩
  rw [emit_trace, handed_append]
  simp [handed, setInput]

/-! ## One step -/

/-- An open connection keeps its stream, and a shutdown is queued only after the state
has left `kConnected`. -/
structure Orderly (s : World × List UInt8) : Prop where
  phase : Streaming s.1 s.2 ∨ s.1.conn.state = .kDisconnected
  queued : .shutdownInLoop ∈ s.1.pending → s.1.conn.state ≠ .kConnected

theorem streaming_queueInLoop {w : World} {acc : List UInt8} (hs : Streaming w acc)
    (f : PendingFunctor) : Streaming (w.queueInLoop f) acc :=
  ⟨hs.isOpen, hs.valid, hs.stream, hs.writing⟩

theorem call_open {w w' : World} {acc : List UInt8} {c : Call} (hs : Streaming w acc)
    (h : w.call c = .ok w') : Streaming w' (acc ++ accepts w (.call c)) ∧ Flushed w w' := by
  cases c with
  | send data answer =>
    simp only [World.call] at h
    simp only [accepts]
    split at h
    · rename_i hc
      rw [if_pos hc]
      exact ⟨sendInLoop_streaming hs h, sendInLoop_flushed hs h⟩
    · rename_i hc
      cases h
      rw [if_neg hc, List.append_nil]
      exact ⟨hs, (Silent.refl w).flushed id⟩
  | shutdown =>
    simp only [World.call] at h
    simp only [accepts, List.append_nil]
    split at h
    · cases h
      have hd := setState_streaming hs
      exact ⟨shutdownInLoop_streaming hd,
        (shutdownInLoop_flushed hd rfl).of_setState (streaming_ne hs)⟩
    · cases h
      exact ⟨hs, (Silent.refl w).flushed id⟩
  | forceClose =>
    simp only [World.call] at h
    simp only [accepts, List.append_nil]
    split at h
    · cases h
      exact ⟨streaming_queueInLoop (setState_streaming hs) _,
        (queueInLoop_flushed rfl).of_setState (streaming_ne hs)⟩
    · cases h
      exact ⟨hs, (Silent.refl w).flushed id⟩
  | startRead =>
    simp only [accepts, List.append_nil]
    have hsame := sameStream_startReadInLoop h
    exact ⟨hsame.streaming hs, hsame.flushed⟩
  | stopRead =>
    simp only [accepts, List.append_nil]
    have hsame := sameStream_stopReadInLoop h
    exact ⟨hsame.streaming hs, hsame.flushed⟩

theorem queueInLoop_silent (w : World) {f : PendingFunctor} (hf : f ≠ .shutdownInLoop) :
    Silent w (w.queueInLoop f) := silent_queueIf w true hf

theorem callFromOther_open {w : World} {acc : List UInt8} {c : Call} (hs : Streaming w acc) :
    Streaming (w.callFromOther c) acc ∧ Flushed w (w.callFromOther c) := by
  cases c with
  | send data answer =>
    simp only [callFromOther]
    split
    · exact ⟨streaming_queueInLoop hs _, (queueInLoop_silent w (by simp)).flushed id⟩
    · exact ⟨hs, (Silent.refl w).flushed id⟩
  | shutdown =>
    simp only [callFromOther]
    split
    · exact ⟨streaming_queueInLoop (setState_streaming hs) _,
        (queueInLoop_flushed rfl).of_setState (streaming_ne hs)⟩
    · exact ⟨hs, (Silent.refl w).flushed id⟩
  | forceClose =>
    simp only [callFromOther]
    split
    · exact ⟨streaming_queueInLoop (setState_streaming hs) _,
        (queueInLoop_flushed rfl).of_setState (streaming_ne hs)⟩
    · exact ⟨hs, (Silent.refl w).flushed id⟩
  | startRead => exact ⟨streaming_queueInLoop hs _, (queueInLoop_silent w (by simp)).flushed id⟩
  | stopRead => exact ⟨streaming_queueInLoop hs _, (queueInLoop_silent w (by simp)).flushed id⟩

/-- What a step leaves of an open connection. -/
def Proceeds (w w' : World) (acc : List UInt8) : Prop :=
  (Streaming w' acc ∨
    w'.conn.state = .kDisconnected ∧ halfCloses w'.trace = halfCloses w.trace) ∧ Flushed w w'

theorem handleClose_proceeds {w w' : World} {acc : List UInt8} {onDown : List Call}
    (h : w.handleClose onDown = .ok w') : Proceeds w w' acc := by
  obtain ⟨-, hd, hi⟩ := handleClose_disconnects h
  exact ⟨Or.inr ⟨hd, hi⟩, flushed_closed hd hi⟩

theorem handleRead_proceeds {w w' : World} {acc : List UInt8} {answer : Buffer.ReadResult}
    {onDown : List Call} (hs : Streaming w acc) (h : w.handleRead answer [] onDown = .ok w') :
    Proceeds w w' acc := by
  cases answer with
  | failed errno =>
    cases h
    exact ⟨Or.inl hs, (Silent.refl w).flushed id⟩
  | received data =>
    cases data with
    | nil => exact handleClose_proceeds h
    | cons x xs =>
      obtain ⟨b, -, h⟩ := bind_ok h
      cases h
      have hsame := sameStream_message w b
      exact ⟨Or.inl (hsame.streaming hs), hsame.flushed⟩

theorem runFunctor_proceeds {w w' : World} {acc : List UInt8} {answer : WriteResult}
    {onDown : List Call} {f : PendingFunctor} (hs : Streaming w acc)
    (hf : f = .shutdownInLoop → w.conn.state = .kDisconnecting)
    (hdown : onDown = [] ∨ f = .forceCloseInLoop) (h : w.runFunctor answer onDown f = .ok w') :
    Proceeds w w' (acc ++ functorAccepts w answer f) := by
  have hcalls (hne : f ≠ .forceCloseInLoop) (h : w.calls onDown = .ok w') : w' = w := by
    rw [hdown.resolve_right hne] at h
    cases h
    rfl
  cases f with
  | sendInLoop message =>
    simp only [functorAccepts]
    rw [if_neg (streaming_ne hs)]
    exact ⟨Or.inl (sendInLoop_streaming hs h), sendInLoop_flushed hs h⟩
  | shutdownInLoop =>
    cases h
    simp only [functorAccepts, List.append_nil]
    exact ⟨Or.inl (shutdownInLoop_streaming hs), shutdownInLoop_flushed hs (hf rfl)⟩
  | forceCloseInLoop =>
    simp only [functorAccepts, List.append_nil]
    simp only [World.runFunctor, World.forceCloseInLoop] at h
    split at h
    · exact handleClose_proceeds h
    · cases h
      exact ⟨Or.inl hs, (Silent.refl w).flushed id⟩
  | startReadInLoop =>
    simp only [functorAccepts, List.append_nil]
    have hsame := sameStream_startReadInLoop h
    exact ⟨Or.inl (hsame.streaming hs), hsame.flushed⟩
  | stopReadInLoop =>
    simp only [functorAccepts, List.append_nil]
    have hsame := sameStream_stopReadInLoop h
    exact ⟨Or.inl (hsame.streaming hs), hsame.flushed⟩
  | writeComplete =>
    simp only [functorAccepts, List.append_nil]
    rw [hcalls (by simp) h]
    exact ⟨Or.inl hs, (Silent.refl w).flushed id⟩
  | highWatermark len =>
    simp only [functorAccepts, List.append_nil]
    rw [hcalls (by simp) h]
    exact ⟨Or.inl hs, (Silent.refl w).flushed id⟩

/-- Taking a functor from the queue. -/
theorem popped_silent {w : World} {f : PendingFunctor} {rest : List PendingFunctor}
    (hp : w.pending = f :: rest) : Silent w { w with pending := rest } := by
  refine ⟨rfl, rfl, ?_⟩
  intro g hg
  rw [hp]
  exact Or.inl (List.mem_cons_of_mem _ hg)

theorem accepts_popped {w : World} {f : PendingFunctor} {rest : List PendingFunctor}
    (hp : w.pending = f :: rest) (answer : WriteResult) (onDown : List Call) :
    accepts w (.functor answer onDown) = functorAccepts { w with pending := rest } answer f := by
  simp only [accepts, hp]
  cases f with
  | sendInLoop message => rfl
  | _ => rfl

theorem step_open {w w' : World} {acc : List UInt8} {a : CloseStep} (hs : Streaming w acc)
    (hq : .shutdownInLoop ∈ w.pending → w.conn.state ≠ .kConnected) (h : Step w a w') :
    Proceeds w w' (acc ++ accepts w a) := by
  cases a with
  | call c =>
    obtain ⟨h1, h2⟩ := call_open hs h
    exact ⟨Or.inl h1, h2⟩
  | callFromOther c =>
    cases h
    simp only [accepts, List.append_nil]
    obtain ⟨h1, h2⟩ := callFromOther_open (c := c) hs
    exact ⟨Or.inl h1, h2⟩
  | functor answer onDown =>
    obtain ⟨f, rest, hp, hdown, h⟩ := h
    rw [hp] at hq
    have hf : f = .shutdownInLoop → w.conn.state = .kDisconnecting := by
      intro hf
      subst hf
      exact hs.isOpen.resolve_left (hq List.mem_cons_self)
    have hpop : Streaming { w with pending := rest } acc :=
      ⟨hs.isOpen, hs.valid, hs.stream, hs.writing⟩
    obtain ⟨h1, h2⟩ := runFunctor_proceeds hpop hf hdown h
    rw [accepts_popped hp]
    exact ⟨h1, (popped_silent hp).then id h2⟩
  | handleRead answer onDown =>
    simp only [accepts, List.append_nil]
    exact handleRead_proceeds hs h
  | handleWrite answer =>
    simp only [accepts, List.append_nil]
    exact ⟨Or.inl (handleWrite_streaming hs h), handleWrite_flushed hs h⟩
  | handleClose onDown =>
    simp only [accepts, List.append_nil]
    exact handleClose_proceeds h

theorem afterDrain_state {w w' : World} (h : w.afterDrain = .ok w') :
    w'.conn.state = w.conn.state := by
  obtain ⟨v, hv, h⟩ := bind_ok h
  have hsv := silent_onChannel hv
  cases h
  generalize hu : World.queueIf _ _ _ = u
  have hstate : u.conn.state = w.conn.state := by
    rw [← hu, queueIf_conn]
    exact hsv.state
  split
  · rw [(shutdownInLoop_fields u).1]
    exact hstate
  · exact hstate

theorem drained_state {w w' : World} {offered : List UInt8} {n : Nat}
    (h : w.drained offered n = .ok w') : w'.conn.state = w.conn.state := by
  unfold World.drained at h
  generalize hu : World.setOutput _ _ = u at h
  have hstate : u.conn.state = w.conn.state := by
    rw [← hu, setOutput_state, emit_conn]
  rcases onlyIf_ok h with ⟨-, h⟩ | ⟨-, rfl⟩
  · exact (afterDrain_state h).trans hstate
  · exact hstate

theorem handleWrite_state {w w' : World} {answer : WriteResult}
    (h : w.handleWrite answer = .ok w') : w'.conn.state = w.conn.state := by
  rcases handleWrite_ok h with rfl | ⟨-, offered, n, -, h⟩
  · rfl
  · exact drained_state h

/-- A closed connection stays closed. -/
theorem step_closed {w w' : World} {a : CloseStep} (hd : w.conn.state = .kDisconnected)
    (h : Step w a w') : w'.conn.state = .kDisconnected := by
  have hopen : w.isOpen = false := by simp [isOpen, hd]
  cases a with
  | call c => exact (silent_call_closed hd h).state.trans hd
  | callFromOther c =>
    cases h
    cases c with
    | send data answer => simp [callFromOther, hd]
    | shutdown => simp [callFromOther, hd]
    | forceClose => simp [callFromOther, hopen, hd]
    | startRead => exact hd
    | stopRead => exact hd
  | functor answer onDown =>
    obtain ⟨f, rest, -, -, h⟩ := h
    cases f with
    | sendInLoop message => exact (silent_sendInLoop h).state.trans hd
    | shutdownInLoop =>
      cases h
      rw [(shutdownInLoop_fields _).1]
      exact hd
    | forceCloseInLoop =>
      have hskip : World.isOpen { w with pending := rest } = false := hopen
      simp only [World.runFunctor, World.forceCloseInLoop, hskip, Bool.false_eq_true,
        ↓reduceIte] at h
      cases h
      exact hd
    | startReadInLoop => exact (silent_startReadInLoop h).state.trans hd
    | stopReadInLoop => exact (silent_stopReadInLoop h).state.trans hd
    | writeComplete =>
      have hcalls : World.calls { w with pending := rest } onDown = .ok w' := h
      exact (silent_calls_closed (w := { w with pending := rest }) hd hcalls).state.trans hd
    | highWatermark len =>
      have hcalls : World.calls { w with pending := rest } onDown = .ok w' := h
      exact (silent_calls_closed (w := { w with pending := rest }) hd hcalls).state.trans hd
  | handleRead answer onDown =>
    cases answer with
    | failed errno =>
      cases h
      exact hd
    | received data =>
      cases data with
      | nil => exact (handleClose_disconnects h).2.1
      | cons x xs =>
        obtain ⟨b, -, h⟩ := bind_ok h
        cases h
        exact hd
  | handleWrite answer => exact (handleWrite_state h).trans hd
  | handleClose onDown => exact (handleClose_disconnects h).2.1

theorem step_orderly {s t : World × List UInt8} {a : CloseStep} (ho : Orderly s)
    (h : StepAccepting s a t) : Orderly t := by
  obtain ⟨w, acc⟩ := s
  obtain ⟨w', acc'⟩ := t
  obtain ⟨hstep, hacc⟩ := h
  dsimp only at hstep hacc
  subst hacc
  rcases ho.phase with hs | hd
  · obtain ⟨hphase, hf⟩ := step_open hs ho.queued hstep
    constructor
    · exact hphase.imp_right And.left
    · intro hq
      exact (hf.queue hq).elim (fun hw => hf.forward (ho.queued hw)) id
  · have hd' := step_closed hd hstep
    constructor
    · exact Or.inr hd'
    · intro _
      dsimp only
      rw [hd']
      simp

theorem run_orderly {s t : World × List UInt8} {steps : List CloseStep}
    (hr : Run StepAccepting s steps t) (ho : Orderly s) : Orderly t :=
  hr.invariant (P := Orderly) (fun _ _ _ hs h => step_orderly hs h) ho

/-- `ShutdownInLoop` of a call of `Shutdown` runs: at once for a call on the loop thread,
from the queue for one on another thread. -/
def RunsShutdown (w : World) (a : CloseStep) : Prop :=
  (a = .call .shutdown ∧ w.conn.state = .kConnected) ∨
    ∃ answer onDown, a = .functor answer onDown ∧ w.pending.head? = some .shutdownInLoop

theorem runsShutdown_requested {w w' : World} {acc : List UInt8} {a : CloseStep}
    (ho : Orderly (w, acc)) (ha : RunsShutdown w a) (h : Step w a w') : Requested w' := by
  rcases ha with ⟨rfl, hc⟩ | ⟨answer, onDown, rfl, hp⟩
  · simp only [Step, World.call, hc, ↓reduceIte] at h
    cases h
    exact shutdownInLoop_requested rfl
  · rcases ho.phase with hs | hd
    · obtain ⟨f, rest, hw, -, h⟩ := h
      rw [hw] at hp
      cases hp
      have hne := ho.queued (by rw [hw]; exact List.mem_cons_self)
      cases h
      exact shutdownInLoop_requested (hs.isOpen.resolve_left hne)
    · exact Or.inr (Or.inl (step_closed hd h))

/-- Once requested, a half-close stays issued or pending along every run. -/
theorem run_requested {w u : World} {acc : List UInt8} {steps : List CloseStep}
    (ho : Orderly (w, acc)) (hq : Requested w) (hr : Run Step w steps u) :
    Requested u ∧ ∃ acc', Orderly (u, acc') := by
  induction hr generalizing acc with
  | nil => exact ⟨hq, acc, ho⟩
  | @cons s v u a as hstep _ ih =>
    have ho' : Orderly (v, acc ++ accepts s a) := step_orderly ho ⟨hstep, rfl⟩
    apply ih ho'
    rcases ho.phase with hs | hd
    · exact (step_open hs ho.queued hstep).2.keep hq
    · exact Or.inr (Or.inl (step_closed hd hstep))

theorem established_orderly {c : TcpConnection} {p : EpollPoller} {w : World}
    (hout : c.outputBuffer = Buffer.ofDefaultSize) (hchan : c.channel.events = Events.kNoneEvent)
    (h : connectEstablished ⟨c, p, [], []⟩ [] = .ok w) : Orderly (w, []) := by
  constructor
  · exact Or.inl (established_streaming hout hchan h)
  · intro hq
    obtain ⟨v, hv, h⟩ := bind_ok h
    obtain ⟨q, d, -, rfl⟩ := onChannel_ok hv
    cases h
    simp [emit, setState] at hq

/-- In every run of an established connection: `SHUT_WR` is issued on an open connection
only when the output buffer is empty and all bytes accepted so far have been handed to
the kernel; and once the `ShutdownInLoop` of a `Shutdown` has run, every later state in
`kDisconnecting` with an empty output buffer has had `SHUT_WR` issued. -/
theorem graceful_shutdown_flushes (addr : Nat) (sockfd : Int) (writeComplete highWatermarkSet : Bool)
    (highWatermark : Nat) (poller : EpollPoller) {w₀ w : World} {steps : List CloseStep}
    {acc : List UInt8}
    (h₀ : connectEstablished
      ⟨TcpConnection.new addr sockfd writeComplete highWatermarkSet highWatermark, poller, [], []⟩ []
      = .ok w₀)
    (hr : Run StepAccepting (w₀, []) steps (w, acc)) :
    (∀ a w', Step w a w' → w.conn.state ≠ .kDisconnected →
      halfCloses w.trace < halfCloses w'.trace →
      w'.conn.outputBuffer.readableBytes = 0 ∧ handed w'.trace = acc ++ accepts w a) ∧
    ∀ a w' later u, Step w a w' → RunsShutdown w a → Run Step w' later u →
      u.conn.state = .kDisconnecting → u.conn.outputBuffer.readableBytes = 0 →
      Effect.shutdownWrite ∈ u.trace := by
  have hfirst : Orderly (w₀, []) := established_orderly rfl rfl h₀
  have ho := run_orderly hr hfirst
  constructor
  · intro a w' hstep hopen hlt
    obtain ⟨hphase, hf⟩ := step_open (ho.phase.resolve_right hopen) ho.queued hstep
    have hnil := (hf.issue hlt).1
    rcases hphase with hs | ⟨-, hi⟩
    · have hstream := hs.stream
      rw [hnil, List.append_nil] at hstream
      exact ⟨(Buffer.content_eq_nil hs.valid).mp hnil, hstream⟩
    · rw [hi] at hlt
      exact absurd hlt (Nat.lt_irrefl _)
  · intro a w' later u hstep ha hlater hstate hempty
    have ho' : Orderly (w', acc ++ accepts w a) := step_orderly ho ⟨hstep, rfl⟩
    obtain ⟨hq, acc', hou⟩ := run_requested ho' (runsShutdown_requested ho ha hstep) hlater
    have hne : u.conn.state ≠ .kDisconnected := by
      rw [hstate]
      decide
    have hs : Streaming u acc' := hou.phase.resolve_right hne
    rcases hq with hm | hd | ⟨-, hw⟩
    · exact hm
    · exact absurd (hstate.symm.trans hd) (by simp)
    · exact absurd ((Buffer.content_eq_nil hs.valid).mpr hempty) (hs.writing.mp hw)

/-- Three bytes of which the kernel takes one, a shutdown, and the drain of the rest. -/
def drainedShutdown : Except Fault (World × World × World × World) := do
  let w₀ ← connectEstablished
    ⟨TcpConnection.new 1 5 true false 0, ⟨fun _ => none, fun _ => none⟩, [], []⟩ []
  let w₁ ← w₀.call (.send [104, 105, 33] (.count 1))
  let w₂ ← w₁.call .shutdown
  let w₃ ← w₂.handleWrite (.count 2)
  return (w₀, w₁, w₂, w₃)

theorem graceful_shutdown_after_drain :
    ∃ w₀ w, connectEstablished ⟨TcpConnection.new 1 5 true false 0,
        ⟨fun _ => none, fun _ => none⟩, [], []⟩ [] = .ok w₀ ∧
      Run Step w₀ [.call (.send [104, 105, 33] (.count 1)), .call .shutdown,
        .handleWrite (.count 2)] w ∧ Effect.shutdownWrite ∈ w.trace := by
  have hok : (drainedShutdown.map fun s => (s.1.conn.state, s.2.1.conn.state, s.2.2.2.conn.state,
      s.2.2.2.conn.outputBuffer.readableBytes)) =
      .ok (.kConnected, .kConnected, .kDisconnecting, 0) := by decide +kernel
  obtain ⟨s, hs, hok⟩ := ok_of_map hok
  obtain ⟨w₀, h₀, h⟩ := bind_ok hs
  obtain ⟨w₁, h₁, h⟩ := bind_ok h
  obtain ⟨w₂, h₂, h⟩ := bind_ok h
  obtain ⟨w₃, h₃, h⟩ := bind_ok h
  cases h
  obtain ⟨hc₀, hok⟩ := Prod.mk.inj hok
  obtain ⟨hc₁, hok⟩ := Prod.mk.inj hok
  obtain ⟨hd, hempty⟩ := Prod.mk.inj hok
  have hsend : Run StepAccepting (w₀, []) [.call (.send [104, 105, 33] (.count 1))]
      (w₁, accepts w₀ (.call (.send [104, 105, 33] (.count 1)))) := .single ⟨h₁, rfl⟩
  have hmem := (graceful_shutdown_flushes _ _ _ _ _ _ h₀ hsend).2 (.call .shutdown) w₂
    [.handleWrite (.count 2)] w₃ h₂ (Or.inl ⟨rfl, hc₁⟩) (.single h₃) hd hempty
  exact ⟨w₀, w₃, h₀, .cons h₁ (.cons h₂ (.single h₃)), hmem⟩

/-! ## Callbacks with calls in them -/

theorem calls_run {w w' : World} {cs : List Call} (h : w.calls cs = .ok w') :
    Run Step w (cs.map .call) w' := by
  induction cs generalizing w with
  | nil =>
    cases h
    exact .nil _
  | cons c cs ih =>
    obtain ⟨v, hv, h⟩ := bind_ok h
    exact .cons hv (ih h)

theorem handleRead_run {w w' : World} {answer : Buffer.ReadResult} {onMessage onDown : List Call}
    (h : w.handleRead answer onMessage onDown = .ok w') : ∃ steps, Run Step w steps w' := by
  cases answer with
  | failed errno =>
    cases h
    exact ⟨[], .nil _⟩
  | received data =>
    cases data with
    | nil =>
      have hclose : w.handleClose onDown = .ok w' := h
      exact ⟨[.handleClose onDown], .single hclose⟩
    | cons x xs =>
      obtain ⟨b, hb, h⟩ := bind_ok h
      have hread : Step w (.handleRead (.received (x :: xs)) onDown)
          ((w.setInput b).emit .messageCallback) := by
        show (w.conn.inputBuffer.readFd (.received (x :: xs)) >>= _) = _
        rw [hb]
        rfl
      exact ⟨_, .cons hread (calls_run h)⟩

/-- A poll event is a run of the steps: the handlers that it calls, each followed by the
calls of its user callback. -/
theorem handleEvent_run {w w' : World} {revents : Events} {a : Answers}
    (h : w.handleEvent revents a = .ok w') : ∃ steps, Run Step w steps w' := by
  obtain ⟨v, hv, h⟩ := bind_ok h
  obtain ⟨u, hu, h⟩ := bind_ok h
  have h1 : ∃ steps, Run Step w steps v := by
    rcases onlyIf_ok hv with ⟨-, hv⟩ | ⟨-, rfl⟩
    · exact ⟨[.handleClose a.onDown], .single hv⟩
    · exact ⟨[], .nil _⟩
  have h2 : ∃ steps, Run Step v steps u := by
    rcases onlyIf_ok hu with ⟨-, hu⟩ | ⟨-, rfl⟩
    · exact handleRead_run hu
    · exact ⟨[], .nil _⟩
  have h3 : ∃ steps, Run Step u steps w' := by
    rcases onlyIf_ok h with ⟨-, h⟩ | ⟨-, rfl⟩
    · exact ⟨[.handleWrite a.write], .single h⟩
    · exact ⟨[], .nil _⟩
  obtain ⟨s1, hr1⟩ := h1
  obtain ⟨s2, hr2⟩ := h2
  obtain ⟨s3, hr3⟩ := h3
  exact ⟨s1 ++ (s2 ++ s3), hr1.append (hr2.append hr3)⟩

/-- So is a functor with the calls of the user callback that it runs. -/
theorem runFunctor_run {w w' : World} {answer : WriteResult} {onRun : List Call}
    {f : PendingFunctor} {rest : List PendingFunctor} (hp : w.pending = f :: rest)
    (h : World.runFunctor { w with pending := rest } answer onRun f = .ok w') :
    ∃ steps, Run Step w steps w' := by
  have hplain (hf : World.runFunctor { w with pending := rest } answer [] f = .ok w') :
      ∃ steps, Run Step w steps w' :=
    ⟨[.functor answer []], .single ⟨f, rest, hp, Or.inl rfl, hf⟩⟩
  have hcallback (hcalls : World.calls { w with pending := rest } onRun = .ok w')
      (hf : World.runFunctor { w with pending := rest } answer [] f =
        .ok { w with pending := rest }) : ∃ steps, Run Step w steps w' := by
    have hfirst : Step w (.functor answer []) { w with pending := rest } :=
      ⟨f, rest, hp, Or.inl rfl, hf⟩
    exact ⟨_, .cons hfirst (calls_run hcalls)⟩
  cases f with
  | writeComplete => exact hcallback h rfl
  | highWatermark len => exact hcallback h rfl
  | forceCloseInLoop => exact ⟨[.functor answer onRun], .single ⟨_, rest, hp, Or.inr rfl, h⟩⟩
  | sendInLoop message => exact hplain h
  | shutdownInLoop => exact hplain h
  | startReadInLoop => exact hplain h
  | stopReadInLoop => exact hplain h

/-! ## Writes after the half-close -/

/-- A queued `SendInLoop` is run while the connection is shutting down, after `SHUT_WR`. -/
def LateSend (w : World) : CloseStep → Prop
  | .functor _ _ => (∃ message, w.pending.head? = some (.sendInLoop message)) ∧
      w.conn.state = .kDisconnecting ∧ Effect.shutdownWrite ∈ w.trace
  | _ => False

/-- `SendInLoop` called now calls `::write`. -/
def CallsWrite (w : World) : Prop := w.conn.state ≠ .kDisconnected ∧ w.writesDirectly = true

/-- A `SendInLoop` of the step calls `::write` although `SHUT_WR` was issued. -/
def WritesAfterHalfClose (w : World) : CloseStep → Prop
  | .call (.send _ _) =>
    w.conn.state = .kConnected ∧ CallsWrite w ∧ Effect.shutdownWrite ∈ w.trace
  | .functor _ _ => (∃ message, w.pending.head? = some (.sendInLoop message)) ∧
      CallsWrite w ∧ Effect.shutdownWrite ∈ w.trace
  | _ => False

/-- Closed, or shutting down with nothing left to write. -/
def Finished (w : World) : Prop :=
  w.conn.state = .kDisconnected ∨
    w.conn.state = .kDisconnecting ∧ w.conn.channel.isWriting = false

theorem finished_sameStream {w w' : World} (h : SameStream w w') (hf : Finished w) :
    Finished w' := by
  unfold Finished
  rw [h.silent.state, h.writing]
  exact hf

theorem call_finished {w w' : World} {c : Call} (hd : w.conn.state = .kDisconnecting)
    (hw : w.conn.channel.isWriting = false) (h : w.call c = .ok w') : Finished w' := by
  have hf : Finished w := Or.inr ⟨hd, hw⟩
  cases c with
  | send data answer =>
    simp only [World.call, hd, reduceCtorEq, ↓reduceIte] at h
    cases h
    exact hf
  | shutdown =>
    simp only [World.call, hd, reduceCtorEq, ↓reduceIte] at h
    cases h
    exact hf
  | forceClose =>
    simp only [World.call] at h
    split at h
    · cases h
      exact Or.inr ⟨rfl, hw⟩
    · cases h
      exact hf
  | startRead => exact finished_sameStream (sameStream_startReadInLoop h) hf
  | stopRead => exact finished_sameStream (sameStream_stopReadInLoop h) hf

theorem callFromOther_finished {w : World} {c : Call} (hd : w.conn.state = .kDisconnecting)
    (hw : w.conn.channel.isWriting = false) : Finished (w.callFromOther c) := by
  have hf : Finished w := Or.inr ⟨hd, hw⟩
  cases c with
  | send data answer =>
    simp only [callFromOther, hd, reduceCtorEq, ↓reduceIte]
    exact hf
  | shutdown =>
    simp only [callFromOther, hd, reduceCtorEq, ↓reduceIte]
    exact hf
  | forceClose =>
    simp only [callFromOther]
    split
    · exact Or.inr ⟨rfl, hw⟩
    · exact hf
  | startRead => exact hf
  | stopRead => exact hf

/-- Without a late send, nothing more is written once the buffer of a connection that
is shutting down is empty. -/
theorem step_finished {w w' : World} {a : CloseStep} (hd : w.conn.state = .kDisconnecting)
    (hw : w.conn.channel.isWriting = false) (hm : Effect.shutdownWrite ∈ w.trace)
    (hlate : ¬LateSend w a) (h : Step w a w') : Finished w' := by
  have hf : Finished w := Or.inr ⟨hd, hw⟩
  cases a with
  | call c => exact call_finished hd hw h
  | callFromOther c =>
    cases h
    exact callFromOther_finished hd hw
  | functor answer onDown =>
    obtain ⟨f, rest, hp, hdown, h⟩ := h
    have hpop : Finished { w with pending := rest } := hf
    have hcalls (hne : f ≠ .forceCloseInLoop)
        (h : World.calls { w with pending := rest } onDown = .ok w') : Finished w' := by
      rw [hdown.resolve_right hne] at h
      cases h
      exact hpop
    cases f with
    | sendInLoop message =>
      exact absurd ⟨⟨message, by rw [hp]; rfl⟩, hd, hm⟩ hlate
    | shutdownInLoop =>
      cases h
      unfold Finished
      rw [(shutdownInLoop_fields _).1]
      exact hpop
    | forceCloseInLoop =>
      simp only [World.runFunctor, World.forceCloseInLoop] at h
      split at h
      · exact Or.inl (handleClose_disconnects h).2.1
      · cases h
        exact hpop
    | startReadInLoop => exact finished_sameStream (sameStream_startReadInLoop h) hpop
    | stopReadInLoop => exact finished_sameStream (sameStream_stopReadInLoop h) hpop
    | writeComplete => exact hcalls (by simp) h
    | highWatermark len => exact hcalls (by simp) h
  | handleRead answer onDown =>
    cases answer with
    | failed errno =>
      cases h
      exact hf
    | received data =>
      cases data with
      | nil => exact Or.inl (handleClose_disconnects h).2.1
      | cons x xs =>
        obtain ⟨b, -, h⟩ := bind_ok h
        cases h
        exact finished_sameStream (sameStream_message w b) hf
  | handleWrite answer =>
    simp only [Step, World.handleWrite, hw, Bool.false_eq_true, ↓reduceIte] at h
    cases h
    exact hf
  | handleClose onDown => exact Or.inl (handleClose_disconnects h).2.1

theorem step_deterministic {w v v' : World} {a : CloseStep} (h : Step w a v) (h' : Step w a v') :
    v = v' := by
  cases a with
  | callFromOther c => exact Eq.trans h (Eq.symm h')
  | functor answer onDown =>
    obtain ⟨f, rest, hp, -, h⟩ := h
    obtain ⟨f', rest', hp', -, h'⟩ := h'
    cases hp.symm.trans hp'
    exact Except.ok.inj (h.symm.trans h')
  | call c => exact Except.ok.inj (Eq.trans (Eq.symm h) h')
  | handleRead answer onDown => exact Except.ok.inj (Eq.trans (Eq.symm h) h')
  | handleWrite answer => exact Except.ok.inj (Eq.trans (Eq.symm h) h')
  | handleClose onDown => exact Except.ok.inj (Eq.trans (Eq.symm h) h')

/-- While no send came late, the half-close finds the connection finished. -/
def Punctual (w : World) : Prop :=
  (∃ acc, Orderly (w, acc)) ∧ (Effect.shutdownWrite ∈ w.trace → Finished w)

theorem step_punctual {w w' : World} {a : CloseStep} (hw : Punctual w) (hlate : ¬LateSend w a)
    (h : Step w a w') : Punctual w' := by
  obtain ⟨⟨acc, ho⟩, hfin⟩ := hw
  refine ⟨⟨_, step_orderly ho ⟨h, rfl⟩⟩, ?_⟩
  intro hm
  rcases ho.phase with hs | hd
  · by_cases hold : Effect.shutdownWrite ∈ w.trace
    · rcases hfin hold with hd | ⟨hd, hquiet⟩
      · exact absurd hd (streaming_ne hs)
      · exact step_finished hd hquiet hold hlate h
    · obtain ⟨hphase, hf⟩ := step_open hs ho.queued h
      have hlt : halfCloses w.trace < halfCloses w'.trace := by
        have h0 : halfCloses w.trace = 0 := List.count_eq_zero.mpr hold
        have h1 : 0 < halfCloses w'.trace := List.count_pos_iff.mpr hm
        omega
      obtain ⟨hnil, hne⟩ := hf.issue hlt
      rcases hphase with hs' | ⟨hd', -⟩
      · have hquiet : w'.conn.channel.isWriting = false := by
          rw [Bool.eq_false_iff]
          intro hwr
          exact hs'.writing.mp hwr hnil
        exact Or.inr ⟨hs'.isOpen.resolve_left hne, hquiet⟩
      · exact Or.inl hd'
  · exact Or.inl (step_closed hd h)

/-- A send that does not come late calls no `::write` after the half-close. -/
theorem punctual_no_write {w : World} {a : CloseStep} (hw : Punctual w) (hlate : ¬LateSend w a) :
    ¬WritesAfterHalfClose w a := by
  obtain ⟨-, hfin⟩ := hw
  intro hwrites
  cases a with
  | call c =>
    cases c with
    | send data answer =>
      obtain ⟨hc, -, hm⟩ := hwrites
      rcases hfin hm with hd | ⟨hd, -⟩
      · exact absurd (hc.symm.trans hd) (by decide)
      · exact absurd (hc.symm.trans hd) (by decide)
    | _ => exact hwrites
  | functor answer onDown =>
    obtain ⟨hhead, ⟨hne, -⟩, hm⟩ := hwrites
    rcases hfin hm with hd | ⟨hd, -⟩
    · exact hne hd
    · exact hlate ⟨hhead, hd, hm⟩
  | _ => exact hwrites

/-- The first send that comes late finds an empty buffer and writes. -/
theorem punctual_late_write {w : World} {a : CloseStep} (hw : Punctual w) (hlate : LateSend w a) :
    WritesAfterHalfClose w a := by
  obtain ⟨⟨acc, ho⟩, hfin⟩ := hw
  cases a with
  | functor answer onDown =>
    obtain ⟨hhead, hd, hm⟩ := hlate
    have hne : w.conn.state ≠ .kDisconnected := by
      rw [hd]
      decide
    have hs : Streaming w acc := ho.phase.resolve_right hne
    have hquiet : w.conn.channel.isWriting = false := ((hfin hm).resolve_left hne).2
    have hnil : w.conn.outputBuffer.content = [] := by
      by_contra hc
      rw [hs.writing.mpr hc] at hquiet
      cases hquiet
    have hzero := (Buffer.content_eq_nil hs.valid).mp hnil
    exact ⟨hhead, ⟨hne, by simp [writesDirectly, hquiet, hzero]⟩, hm⟩
  | _ => exact absurd hlate id

/-- In every run of an established connection, no `SendInLoop` calls `::write` after
`SHUT_WR` exactly if no queued `SendInLoop` is run in `kDisconnecting` after `SHUT_WR`. -/
theorem no_write_after_half_close_iff (addr : Nat) (sockfd : Int)
    (writeComplete highWatermarkSet : Bool) (highWatermark : Nat) (poller : EpollPoller)
    {w₀ w : World} {steps : List CloseStep}
    (h₀ : connectEstablished
      ⟨TcpConnection.new addr sockfd writeComplete highWatermarkSet highWatermark, poller, [], []⟩ []
      = .ok w₀)
    (hr : Run Step w₀ steps w) :
    (∀ pre a post u v, steps = pre ++ a :: post → Run Step w₀ pre u → Step u a v →
        ¬WritesAfterHalfClose u a) ↔
      ∀ pre a post u, steps = pre ++ a :: post → Run Step w₀ pre u → ¬LateSend u a := by
  have hfirst : Orderly (w₀, []) := established_orderly rfl rfl h₀
  have hstart : Punctual w₀ := by
    refine ⟨⟨[], hfirst⟩, ?_⟩
    intro hm
    obtain ⟨v, hv, h⟩ := bind_ok h₀
    obtain ⟨q, d, -, rfl⟩ := onChannel_ok hv
    cases h
    simp [emit, setState] at hm
  apply Run.steps_iff (R := Step) (I := Punctual) (fun _ _ _ _ => step_deterministic) ?_ ?_ hr
    hstart
  · intro s a t hs hstep hlate
    exact ⟨step_punctual hs hlate hstep, punctual_no_write hs hlate⟩
  · intro s a t hs _ hlate hno
    exact hno (punctual_late_write hs (not_not.mp hlate))

/-- A send is queued by another thread and runs before the shutdown. -/
def timelySend : Except Fault (World × World × World × World) := do
  let w₀ ← connectEstablished
    ⟨TcpConnection.new 1 5 true false 0, ⟨fun _ => none, fun _ => none⟩, [], []⟩ []
  let w₁ := w₀.callFromOther (.send [104] (.count 0))
  let w₂ ← World.runFunctor { w₁ with pending := [] } (.count 1) [] (.sendInLoop [104])
  let w₃ ← w₂.call .shutdown
  return (w₀, w₁, w₂, w₃)

theorem no_write_after_timely_send :
    ∃ w₀ w, connectEstablished ⟨TcpConnection.new 1 5 true false 0,
        ⟨fun _ => none, fun _ => none⟩, [], []⟩ [] = .ok w₀ ∧
      Run Step w₀ [.callFromOther (.send [104] (.count 0)), .functor (.count 1) [],
        .call .shutdown] w ∧ Effect.shutdownWrite ∈ w.trace ∧
      ∀ u v, Run Step w₀ [.callFromOther (.send [104] (.count 0))] u →
        Step u (.functor (.count 1) []) v → ¬WritesAfterHalfClose u (.functor (.count 1) []) := by
  have hok : (timelySend.map fun s => (s.2.1.pending, s.2.1.trace,
      decide (Effect.shutdownWrite ∈ s.2.2.2.trace))) =
      .ok ([.sendInLoop [104]], [.connectionCallback .kConnected], true) := by decide +kernel
  obtain ⟨s, hs, hok⟩ := ok_of_map hok
  obtain ⟨w₀, h₀, h⟩ := bind_ok hs
  obtain ⟨w₂, h₂, h⟩ := bind_ok h
  obtain ⟨w₃, h₃, h⟩ := bind_ok h
  cases h
  obtain ⟨hp, hok⟩ := Prod.mk.inj hok
  obtain ⟨ht, hm⟩ := Prod.mk.inj hok
  have hr : Run Step w₀ [.callFromOther (.send [104] (.count 0)), .functor (.count 1) [],
      .call .shutdown] w₃ :=
    .cons (t := w₀.callFromOther (.send [104] (.count 0))) rfl
      (.cons (t := w₂) ⟨_, _, hp, Or.inl rfl, h₂⟩ (.single h₃))
  refine ⟨w₀, w₃, h₀, hr, of_decide_eq_true hm, ?_⟩
  intro u v hu hv
  refine (no_write_after_half_close_iff _ _ _ _ _ _ h₀ hr).mpr ?_ _ _ _ u v rfl hu hv
  intro pre a post t he hpre hlate
  rcases pre with - | ⟨a1, - | ⟨a2, - | ⟨a3, pre⟩⟩⟩
  · cases he
    exact hlate
  · cases he
    cases hpre with
    | cons h1 hrest =>
      cases h1
      cases hrest
      have hmem := hlate.2.2
      rw [ht] at hmem
      simp at hmem
  · cases he
    exact hlate
  · simp at he

/-- A send is queued by another thread; the loop thread shuts down before it runs. -/
def overtakenSend : Except Fault (World × World × World) := do
  let w₀ ← connectEstablished
    ⟨TcpConnection.new 1 5 true false 0, ⟨fun _ => none, fun _ => none⟩, [], []⟩ []
  let w₂ ← (w₀.callFromOther (.send [104] (.count 0))).call .shutdown
  let w₃ ← World.runFunctor { w₂ with pending := [] } (.count 1) [] (.sendInLoop [104])
  return (w₀, w₂, w₃)

theorem queued_send_writes_after_shutdown :
    ∃ w₀ w v, connectEstablished ⟨TcpConnection.new 1 5 true false 0,
        ⟨fun _ => none, fun _ => none⟩, [], []⟩ [] = .ok w₀ ∧
      Run Step w₀ [.callFromOther (.send [104] (.count 0)), .call .shutdown] w ∧
      Step w (.functor (.count 1) []) v ∧ WritesAfterHalfClose w (.functor (.count 1) []) ∧
      v.trace = [.connectionCallback .kConnected, .shutdownWrite, .wrote [104]] := by
  have hok : (overtakenSend.map fun s => (s.2.1.pending, s.2.1.conn.state, s.2.1.writesDirectly,
      s.2.1.trace, s.2.2.trace)) = .ok ([.sendInLoop [104]], .kDisconnecting, true,
      [.connectionCallback .kConnected, .shutdownWrite],
      [.connectionCallback .kConnected, .shutdownWrite, .wrote [104]]) := by decide +kernel
  obtain ⟨s, hs, hok⟩ := ok_of_map hok
  obtain ⟨w₀, h₀, h⟩ := bind_ok hs
  obtain ⟨w₂, h₂, h⟩ := bind_ok h
  obtain ⟨w₃, h₃, h⟩ := bind_ok h
  cases h
  obtain ⟨hp, hok⟩ := Prod.mk.inj hok
  obtain ⟨hd, hok⟩ := Prod.mk.inj hok
  obtain ⟨hw, hok⟩ := Prod.mk.inj hok
  obtain ⟨ht, ht₃⟩ := Prod.mk.inj hok
  dsimp only at hp hd hw ht ht₃
  refine ⟨w₀, w₂, w₃, h₀, .cons rfl (.single h₂), ⟨_, _, hp, Or.inl rfl, h₃⟩, ?_, ht₃⟩
  refine ⟨⟨[104], by rw [hp]; rfl⟩, ⟨by rw [hd]; decide, hw⟩, ?_⟩
  rw [ht]
  simp

end RyanNetwork.Tcp.HalfClose
