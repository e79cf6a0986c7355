import RyanNetwork.Lib.Runs
import RyanNetwork.Buffer.Content
import RyanNetwork.Tcp.Connection

/-!
# The outgoing byte stream of an open connection

Bytes reach the kernel on two routes: written at once by `SendInLoop`, or
buffered there and drained by `HandleWrite`. The invariant couples the write
interest of the channel to the buffer, so a direct write never overtakes
buffered bytes, and the bytes handed over followed by the buffered ones are the
data accepted so far, in call order.
-/
namespace RyanNetwork.Tcp.Stream

open Lib World

set_option autoImplicit false

theorem isWriting_or (e : Events) : (e.or Events.kWriteEvent).and Events.kWriteEvent ≠
    Events.kNoneEvent := by
  obtain ⟨a, b, c, d, f⟩ := e
  simp [Events.or, Events.and, Events.kWriteEvent, Events.kNoneEvent]

theorem isWriting_and_not (e : Events) : (e.and Events.kWriteEvent.not).and Events.kWriteEvent =
    Events.kNoneEvent := by
  obtain ⟨a, b, c, d, f⟩ := e
  simp [Events.not, Events.and, Events.kWriteEvent, Events.kNoneEvent]

theorem isWriting_or_read (e : Events) : (e.or Events.kReadEvent).and Events.kWriteEvent =
    e.and Events.kWriteEvent := by
  obtain ⟨a, b, c, d, f⟩ := e
  simp [Events.or, Events.and, Events.kWriteEvent, Events.kReadEvent]

/-! ## What one step does to the stream -/

/-- The bytes given to the kernel, oldest first. -/
def handed (trace : List Effect) : List UInt8 :=
  trace.flatMap fun
    | .wrote data => data
    | _ => []

theorem handed_append (t u : List Effect) : handed (t ++ u) = handed t ++ handed u :=
  List.flatMap_append

theorem shutdownInLoop_fields (w : World) : w.shutdownInLoop.conn = w.conn ∧
    handed w.shutdownInLoop.trace = handed w.trace := by
  unfold shutdownInLoop
  split
  · exact ⟨rfl, rfl⟩
  · exact ⟨rfl, by simp [emit, handed]⟩

/-- The tail of `SendInLoop` appends exactly the rest of the data, and watches
for writability as soon as there is a rest. -/
theorem bufferRemaining_spec {w w' : World} {data : List UInt8} {n : Nat}
    (hv : w.conn.outputBuffer.Valid)
    (h : w.bufferRemaining data n (data.length - n) = .ok w') :
    w'.conn.state = w.conn.state ∧ handed w'.trace = handed w.trace ∧
      w'.conn.outputBuffer.Valid ∧
      w'.conn.outputBuffer.content = w.conn.outputBuffer.content ++ data.drop n ∧
      (w'.conn.channel.isWriting = true ↔ w.conn.channel.isWriting = true ∨ n < data.length) := by
  unfold bufferRemaining at h
  split at h
  · rename_i hpos
    obtain ⟨b, hb, h⟩ := bind_ok h
    have hrest : (data.drop n).take (data.length - n) = data.drop n :=
      List.take_of_length_le (by simp)
    rw [hrest] at hb
    obtain ⟨hbv, hbc⟩ := Buffer.append_ok hv hb
    rcases onlyIf_ok h with ⟨hw, h⟩ | ⟨hw, rfl⟩
    · obtain ⟨p, c, hop, rfl⟩ := onChannel_ok h
      have he := (EpollPoller.updateChannel_keeps hop).2.2
      refine ⟨by simp, by simp, hbv, hbc, ?_⟩
      simp only [Channel.isWriting, he]
      exact ⟨fun _ => Or.inr (by omega), fun _ => decide_eq_true (isWriting_or _)⟩
    · simp only [setOutput_channel, queueIf_conn, Bool.not_eq_false'] at hw
      refine ⟨by simp, by simp, hbv, hbc, ?_⟩
      simp [hw]
  · rename_i hz
    cases h
    have hd : data.drop n = [] := List.drop_eq_nil_of_le (by omega)
    refine ⟨rfl, rfl, hv, by rw [hd, List.append_nil], ?_⟩
    exact ⟨Or.inl, fun hor => hor.resolve_right (by omega)⟩

/-! ## The invariant -/

/-- The stream of an open connection that has accepted the bytes `acc`. -/
structure Streaming (w : World) (acc : List UInt8) : Prop where
  isOpen : w.conn.state = .kConnected ∨ w.conn.state = .kDisconnecting
  valid : w.conn.outputBuffer.Valid
  stream : handed w.trace ++ w.conn.outputBuffer.content = acc
  writing : w.conn.channel.isWriting = true ↔ w.conn.outputBuffer.content ≠ []

/-- The calls and events of a connection between `ConnectEstablished` and
`HandleClose`. `shutdown` is the call on the loop thread, `shutdownFromOther` the
one on another thread, whose functor runs as `shutdownInLoop`. -/
inductive StreamStep where
  | sendInLoop (data : List UInt8) (answer : WriteResult)
  | handleWrite (answer : WriteResult)
  | shutdown
  | shutdownFromOther
  | shutdownInLoop

/-- A direct write refused because the peer is gone: its data is dropped. -/
def faultError (w : World) : WriteResult → Bool
  | .count _ => false
  | .failed errno => w.writesDirectly && (errno == EPIPE || errno == ECONNRESET)

/-- The data a step adds to the stream. -/
def accepted (w : World) : StreamStep → List UInt8
  | .sendInLoop data answer => if faultError w answer then [] else data
  | _ => []

def Step (w : World) : StreamStep → World → Prop
  | .sendInLoop data answer, w' =>
    data.length < 2 ^ 31 ∧ answer.Fits data.length ∧ w.sendInLoop data answer = .ok w'
  | .handleWrite answer, w' =>
    answer.Fits w.conn.outputBuffer.readableBytes ∧ w.handleWrite answer = .ok w'
  | .shutdown, w' => w.call .shutdown = .ok w'
  | .shutdownFromOther, w' => w' = w.callFromOther .shutdown
  | .shutdownInLoop, w' => w' = w.shutdownInLoop

/-- A step together with the data accepted so far. -/
def StepAccepting (s : World × List UInt8) (a : StreamStep) (t : World × List UInt8) : Prop :=
  Step s.1 a t.1 ∧ t.2 = s.2 ++ accepted s.1 a

/-- Appending the rest of some data to an open stream. -/
theorem streaming_bufferRemaining {w w' : World} {acc data : List UInt8} {n : Nat}
    (hopen : w.conn.state = .kConnected ∨ w.conn.state = .kDisconnecting)
    (hv : w.conn.outputBuffer.Valid)
    (hs : handed w.trace ++ w.conn.outputBuffer.content ++ data.drop n = acc)
    (hw : w.conn.channel.isWriting = true ↔ w.conn.outputBuffer.content ≠ [])
    (h : w.bufferRemaining data n (data.length - n) = .ok w') : Streaming w' acc := by
  obtain ⟨hst, hh, hv', hc, hwr⟩ := bufferRemaining_spec hv h
  refine ⟨?_, hv', ?_, ?_⟩
  · rw [hst]
    exact hopen
  · rw [hh, hc, ← List.append_assoc, hs]
  · have hd : data.drop n ≠ [] ↔ n < data.length := by simp
    rw [hwr, hc, hw, ← hd]
    simp only [ne_eq, List.append_eq_nil_iff, not_and_or]

theorem afterWrite_streaming {w w' : World} {acc data : List UInt8} {n : Nat}
    (hs : Streaming w acc)
    (hempty : w.conn.outputBuffer.content = []) (h : w.afterWrite data n = .ok w') :
    Streaming w' (acc ++ data) := by
  refine streaming_bufferRemaining (n := n) ?_ ?_ ?_ ?_ h
  · simpa using hs.isOpen
  · simpa using hs.valid
  · have hone : handed [.wrote (data.take n)] = data.take n := by simp [handed]
    rw [queueIf_trace, emit_trace, handed_append, hone, queueIf_conn, emit_conn, ← hs.stream,
      hempty, List.append_nil, List.append_nil, List.append_assoc, List.take_append_drop]
  · simpa using hs.writing

theorem sendInLoop_streaming {w w' : World} {acc data : List UInt8} {answer : WriteResult}
    (hs : Streaming w acc) (h : w.sendInLoop data answer = .ok w') :
    Streaming w' (acc ++ accepted w (.sendInLoop data answer)) := by
  unfold World.sendInLoop at h
  have hup : w.conn.state ≠ .kDisconnected := by rcases hs.isOpen with he | he <;> simp [he]
  rw [if_neg hup] at h
  have hbuffered (h : w.bufferRemaining data 0 data.length = .ok w') : Streaming w' (acc ++ data) :=
    streaming_bufferRemaining (n := 0) hs.isOpen hs.valid (by rw [hs.stream, List.drop_zero])
      hs.writing h
  split at h
  · rename_i hd
    have hempty : w.conn.outputBuffer.content = [] := by
      rw [Buffer.content_eq_nil hs.valid]
      simpa using (Bool.and_eq_true_iff.mp hd).2
    cases answer with
    | count n => exact afterWrite_streaming hs hempty h
    | failed errno =>
      by_cases hf : errno = EPIPE ∨ errno = ECONNRESET
      · have hfault : faultError w (.failed errno) = true := by simp [faultError, hd, hf]
        rw [accepted, if_pos hfault, List.append_nil]
        have hne : errno ≠ EWOULDBLOCK := by rcases hf with rfl | rfl <;> decide
        simp only [hne, hf, ne_eq, not_false_eq_true, and_self, ↓reduceIte] at h
        cases h
        exact hs
      · have hfault : faultError w (.failed errno) = false := by
          simpa [faultError] using fun _ => not_or.mp hf
        rw [accepted, if_neg (by rw [hfault]; decide)]
        simp only [hf, and_false, ↓reduceIte] at h
        exact hbuffered h
  · rename_i hd
    have hfault : faultError w answer = false := by
      cases answer <;> simp [faultError, hd]
    rw [accepted, if_neg (by rw [hfault]; decide)]
    exact hbuffered h

theorem shutdownInLoop_streaming {w : World} {acc : List UInt8} (hs : Streaming w acc) :
    Streaming w.shutdownInLoop acc := by
  obtain ⟨hc, hh⟩ := shutdownInLoop_fields w
  exact ⟨by rw [hc]; exact hs.isOpen, by rw [hc]; exact hs.valid,
    by rw [hh, hc]; exact hs.stream, by rw [hc]; exact hs.writing⟩

/-- Emptying the buffer drops the write interest and hands over nothing more. -/
theorem afterDrain_streaming {w w' : World} {acc : List UInt8}
    (hopen : w.conn.state = .kConnected ∨ w.conn.state = .kDisconnecting)
    (hv : w.conn.outputBuffer.Valid) (hempty : w.conn.outputBuffer.content = [])
    (hs : handed w.trace = acc) (h : w.afterDrain = .ok w') : Streaming w' acc := by
  obtain ⟨v, hv', h⟩ := bind_ok h
  obtain ⟨p, c, hop, rfl⟩ := onChannel_ok hv'
  have he := (EpollPoller.updateChannel_keeps hop).2.2
  have hquiet : c.isWriting = false := by
    simp only [Channel.isWriting, he, decide_eq_false_iff_not, not_not]
    exact isWriting_and_not _
  cases h
  generalize hq : World.queueIf _ _ _ = u
  have hu : Streaming u acc := by
    rw [← hq]
    refine ⟨by simpa using hopen, by simpa using hv, ?_, ?_⟩
    · simp [hempty, hs]
    · simp [hempty, hquiet]
  split
  · exact shutdownInLoop_streaming hu
  · exact hu

theorem drained_streaming {w w' : World} {acc : List UInt8} {n : Nat} (hs : Streaming w acc)
    (hw : w.conn.channel.isWriting = true) (h : w.drained w.conn.outputBuffer.content n = .ok w') :
    Streaming w' acc := by
  obtain ⟨hv, hc⟩ := Buffer.retrieve_spec hs.valid n
  have hone : handed [.wrote (w.conn.outputBuffer.content.take n)] =
      w.conn.outputBuffer.content.take n := by simp [handed]
  have hstream : handed (w.trace ++ [.wrote (w.conn.outputBuffer.content.take n)]) ++
      (w.conn.outputBuffer.retrieve n).content = acc := by
    rw [handed_append, hone, hc, List.append_assoc, List.take_append_drop, hs.stream]
  rcases onlyIf_ok h with ⟨hz, h⟩ | ⟨hz, rfl⟩
  · have hnil : (w.conn.outputBuffer.retrieve n).content = [] := by
      rw [Buffer.content_eq_nil hv]
      simpa using hz
    rw [hnil, List.append_nil] at hstream
    refine afterDrain_streaming ?_ hv hnil hstream h
    simpa using hs.isOpen
  · refine ⟨by simpa using hs.isOpen, hv, hstream, ?_⟩
    have hne : (w.conn.outputBuffer.retrieve n).content ≠ [] := by
      rw [ne_eq, Buffer.content_eq_nil hv]
      simpa using hz
    simp [hw, hne]

theorem handleWrite_streaming {w w' : World} {acc : List UInt8} {answer : WriteResult}
    (hs : Streaming w acc) (h : w.handleWrite answer = .ok w') : Streaming w' acc := by
  rcases handleWrite_ok h with rfl | ⟨hw, offered, n, ho, h⟩
  · exact hs
  · rw [Buffer.contentToString_spec hs.valid] at ho
    cases ho
    exact drained_streaming hs hw h

theorem setState_streaming {w : World} {acc : List UInt8} (hs : Streaming w acc) :
    Streaming (w.setState .kDisconnecting) acc :=
  ⟨Or.inr rfl, hs.valid, hs.stream, hs.writing⟩

/-- Every step keeps the stream, extended by what the step accepted. -/
theorem step_streaming {w w' : World} {acc : List UInt8} {a : StreamStep} (hs : Streaming w acc)
    (h : Step w a w') : Streaming w' (acc ++ accepted w a) := by
  cases a with
  | sendInLoop data answer => exact sendInLoop_streaming hs h.2.2
  | handleWrite answer =>
    simp only [accepted, List.append_nil]
    exact handleWrite_streaming hs h.2
  | shutdown =>
    simp only [accepted, List.append_nil]
    change (if _ then _ else _) = _ at h
    split at h
    · cases h
      exact shutdownInLoop_streaming (setState_streaming hs)
    · cases h
      exact hs
  | shutdownFromOther =>
    simp only [accepted, List.append_nil]
    cases h
    simp only [callFromOther]
    split
    · have hd := setState_streaming hs
      exact ⟨hd.isOpen, hd.valid, hd.stream, hd.writing⟩
    · exact hs
  | shutdownInLoop =>
    simp only [accepted, List.append_nil]
    cases h
    exact shutdownInLoop_streaming hs

theorem run_streaming {s t : World × List UInt8} {steps : List StreamStep}
    (hr : Run StepAccepting s steps t) (hs : Streaming s.1 s.2) : Streaming t.1 t.2 := by
  refine hr.invariant (P := fun s => Streaming s.1 s.2) ?_ hs
  rintro ⟨w, acc⟩ a ⟨w', acc'⟩ hi ⟨hstep, hacc⟩
  cases hacc
  exact step_streaming hi hstep

/-- A freshly established connection has handed over and buffered nothing. -/
theorem established_streaming {c : TcpConnection} {p : EpollPoller} {w : World}
    (hout : c.outputBuffer = Buffer.ofDefaultSize) (hchan : c.channel.events = Events.kNoneEvent)
    (h : connectEstablished ⟨c, p, [], []⟩ [] = .ok w) : Streaming w [] := by
  obtain ⟨v, hv, h⟩ := bind_ok h
  obtain ⟨q, d, hop, rfl⟩ := onChannel_ok hv
  have he := (EpollPoller.updateChannel_keeps hop).2.2
  cases h
  obtain ⟨hvalid, hnil⟩ := Buffer.ofDefaultSize_spec
  have hquiet : d.isWriting = false := by
    simp only [Channel.isWriting, he, decide_eq_false_iff_not, not_not]
    rw [isWriting_or_read]
    simp [setState, hchan, Events.and, Events.kNoneEvent]
  refine ⟨Or.inl rfl, by simpa [setState, hout] using hvalid, ?_, ?_⟩
  · simp [setState, hout, hnil, handed]
  · simp [setState, hout, hnil, hquiet]

/-- From `ConnectEstablished` up to `HandleClose`, after every step: the bytes
handed to the kernel followed by those of the output buffer are the data of all
`SendInLoop` calls, in call order, save those dropped whole by a refused direct
write; and the channel watches for writability exactly when bytes are buffered. -/
theorem outgoing_stream_integrity (addr : Nat) (sockfd : Int) (writeComplete highWatermarkSet : Bool)
    (highWatermark : Nat) (poller : EpollPoller) {w₀ w : World} {steps : List StreamStep}
    {acc : List UInt8}
    (h₀ : connectEstablished
      ⟨TcpConnection.new addr sockfd writeComplete highWatermarkSet highWatermark, poller, [], []⟩ []
      = .ok w₀)
    (hr : Run StepAccepting (w₀, []) steps (w, acc)) :
    handed w.trace ++ w.conn.outputBuffer.content = acc ∧
      (w.conn.channel.isWriting = true ↔ w.conn.outputBuffer.readableBytes ≠ 0) := by
  have hs := run_streaming hr (established_streaming rfl rfl h₀)
  refine ⟨hs.stream, ?_⟩
  rw [hs.writing, ne_eq, ne_eq, Buffer.content_eq_nil hs.valid]

/-- A connection that sends three bytes of which the kernel takes one. -/
def sampleRun : Except Fault (World × World × World) := do
  let w₀ ← connectEstablished
    ⟨TcpConnection.new 1 5 true true 2, ⟨fun _ => none, fun _ => none⟩, [], []⟩ []
  let w₁ ← w₀.sendInLoop [104, 105, 33] (.count 1)
  let w₂ ← w₁.handleWrite (.failed EWOULDBLOCK)
  return (w₀, w₁, w₂)

theorem outgoing_stream_partial_write :
    ∃ w₀ w, connectEstablished ⟨TcpConnection.new 1 5 true true 2,
        ⟨fun _ => none, fun _ => none⟩, [], []⟩ [] = .ok w₀ ∧
      Run StepAccepting (w₀, [])
        [.sendInLoop [104, 105, 33] (.count 1), .handleWrite (.failed EWOULDBLOCK)]
        (w, [104, 105, 33]) ∧
      handed w.trace ++ w.conn.outputBuffer.content = [104, 105, 33] := by
  have hok : sampleRun.toBool = true := by decide +kernel
  cases hs : sampleRun with
  | error e =>
    rw [hs] at hok
    cases hok
  | ok ws =>
    obtain ⟨w₀, h₀, h⟩ := bind_ok hs
    obtain ⟨w₁, h₁, h⟩ := bind_ok h
    obtain ⟨w₂, h₂, -⟩ := bind_ok h
    have hr : Run StepAccepting (w₀, [])
        [.sendInLoop [104, 105, 33] (.count 1), .handleWrite (.failed EWOULDBLOCK)]
        (w₂, [104, 105, 33]) :=
      .cons (t := (w₁, [104, 105, 33])) ⟨⟨by decide, Nat.le_of_ble_eq_true rfl, h₁⟩, rfl⟩
        (.single ⟨⟨trivial, h₂⟩, rfl⟩)
    exact ⟨w₀, w₂, h₀, hr, (outgoing_stream_integrity _ _ _ _ _ _ h₀ hr).1⟩

end RyanNetwork.Tcp.Stream
