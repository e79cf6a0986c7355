import RyanNetwork.Tcp.FlowControl
import RyanNetwork.Tcp.HalfClose
import RyanNetwork.Tcp.Registration

/-!
# Sending a file in pieces

`examples/filetransfer/download3.cc` on one connection: the first piece is sent when the
connection is up, each further one when the write of the piece before is complete, and the
connection is shut down when a read gives nothing more. At any time one of two things
stands for the piece under way: its bytes in the output buffer, or the write-complete
functor in the queue of the loop.
-/
namespace RyanNetwork.Servers.FileTransfer

open Lib Tcp Tcp.Stream Tcp.HalfClose Tcp.FlowControl
open Tcp.World (Call)

set_option autoImplicit false

def kBufSize : Nat := 64 * 1024

/-- `context` is what the `FilePtr` in the connection's context has not read yet. `refused`
is ghost: `::write` has failed for a piece and nothing of it was kept. -/
structure Transfer where
  world : World
  context : Option (List UInt8)
  refused : Bool

namespace Transfer

/-- Whether `Send` of the piece ends without a write-complete functor to come. -/
def refuses (piece : List UInt8) : WriteResult → Bool
  | .count _ => false
  | .failed errno => errno == EPIPE || errno == ECONNRESET || piece.isEmpty

def send (d : Transfer) (piece : List UInt8) (answer : WriteResult) : Except Fault Transfer := do
  let w ← d.world.call (.send piece answer)
  return { d with world := w, refused := d.refused || refuses piece answer }

def shutdown (d : Transfer) : Except Fault Transfer := do
  let w ← d.world.call .shutdown
  return { d with world := w }

/-- `OnConnection` of a connection that is up; `file` is `none` if `fopen` fails. -/
def onConnection (d : Transfer) (file : Option (List UInt8)) (answer : WriteResult) :
    Except Fault Transfer :=
  match file with
  | some bytes => { d with context := some (bytes.drop kBufSize) }.send (bytes.take kBufSize) answer
  | none => d.shutdown

/-- `OnWriteComplete`; an empty context makes `any_cast` throw. -/
def onWriteComplete (d : Transfer) (answer : WriteResult) : Except Fault Transfer :=
  match d.context with
  | some rest =>
    if 0 < (rest.take kBufSize).length then
      { d with context := some (rest.drop kBufSize) }.send (rest.take kBufSize) answer
    else d.shutdown
  | none => .error .fatal

/-- `ConnectEstablished` of a connection of the server. Its `OnConnection` sets the
high-watermark callback before it sends anything. -/
def start (addr : Nat) (sockfd : Int) (file : Option (List UInt8)) (answer : WriteResult) :
    Except Fault Transfer := do
  let w ← World.connectEstablished
    ⟨TcpConnection.new addr sockfd true true (kBufSize + 1), ⟨fun _ => none, fun _ => none⟩,
      [], []⟩ []
  Transfer.onConnection ⟨w, none, false⟩ file answer

/-- Running a functor of the connection. `OnHighWaterMark` only logs. -/
def runFunctor (d : Transfer) (answer : WriteResult) : PendingFunctor → Except Fault Transfer
  | .writeComplete => d.onWriteComplete answer
  | f => do
    let w ← d.world.runFunctor answer [] f
    return { d with world := w }

/-- A poll event, with `DefaultMessageCallback`. -/
def handleEvent (d : Transfer) (revents : Events) (read : Buffer.ReadResult)
    (write : WriteResult) : Except Fault Transfer := do
  let w ← d.world.handleEvent revents ⟨read, write, [], []⟩
  return { d with world := w.setInput w.conn.inputBuffer.retrieveAll }

end Transfer

inductive TransferStep where
  | functor (answer : WriteResult)
  | event (revents : Events) (read : Buffer.ReadResult) (write : WriteResult)

/-- The loop takes the first functor of its queue. -/
def perform (d : Transfer) : TransferStep → Except Fault Transfer
  | .functor answer =>
    match d.world.pending with
    | f :: rest => { d with world := { d.world with pending := rest } }.runFunctor answer f
    | [] => .error .outOfBounds
  | .event revents read write => d.handleEvent revents read write

def Step (d : Transfer) (a : TransferStep) (d' : Transfer) : Prop := perform d a = .ok d'

/-! ## Pieces under way -/

/-- How many write-complete functors wait. -/
def tokens (w : World) : Nat := w.pending.count .writeComplete

theorem tokens_append {w w' : World} {fs : List PendingFunctor} (h : w'.pending = w.pending ++ fs) :
    tokens w' = tokens w + fs.count .writeComplete := by
  rw [tokens, h, List.count_append]
  rfl

/-- The functors that the callbacks of this server leave in the queue. -/
def Tame (fs : List PendingFunctor) : Prop :=
  ∀ f ∈ fs, f = .writeComplete ∨ ∃ n, f = .highWatermark n

theorem Tame.append {fs gs : List PendingFunctor} (h : Tame fs) (h' : Tame gs) : Tame (fs ++ gs) :=
  fun f hf => (List.mem_append.mp hf).elim (h f) (h' f)

theorem crossing_tame (c : TcpConnection) (old new : Nat) :
    (crossing c old new).count .writeComplete = 0 ∧ Tame (crossing c old new) := by
  unfold crossing Tame
  split
  · simp
  · simp

/-- An open connection that has accepted the bytes `sent`, in pieces. -/
structure Flowing (w : World) (sent : List UInt8) : Prop where
  stream : Streaming w sent
  callback : w.conn.writeCompleteCallback = true
  small : w.conn.outputBuffer.content.length ≤ kBufSize
  tame : Tame w.pending

/-- The tail of `SendInLoop` on an empty output buffer queues no write-complete functor. -/
theorem bufferRemaining_flowing {w w' : World} {sent data : List UInt8} {n : Nat}
    (hv : w.conn.outputBuffer.Valid) (hempty : w.conn.outputBuffer.content = [])
    (hcallback : w.conn.writeCompleteCallback = true) (htame : Tame w.pending)
    (hsmall : data.length ≤ kBufSize) (hs : Streaming w' (sent ++ data))
    (hb : w.bufferRemaining data n (data.length - n) = .ok w') :
    Flowing w' (sent ++ data) ∧ tokens w' = tokens w ∧
      w'.conn.outputBuffer.content = data.drop n := by
  obtain ⟨-, -, -, hc, -⟩ := bufferRemaining_spec hv hb
  rw [hempty, List.nil_append] at hc
  have hp := bufferRemaining_pending hv hb
  obtain ⟨hcount, hcross⟩ := crossing_tame w.conn (FlowControl.waiting w) (FlowControl.waiting w')
  refine ⟨⟨hs, ?_, ?_, ?_⟩, ?_, hc⟩
  · exact (congrArg Prod.fst (bufferRemaining_settings hb)).trans hcallback
  · rw [hc, List.length_drop]
    omega
  · rw [hp]
    exact htame.append hcross
  · rw [tokens_append hp, hcount, Nat.add_zero]

/-- `SendInLoop` of a piece on an empty output buffer: it is refused, or it is under way. -/
theorem sendInLoop_flowing {w w' : World} {sent piece : List UInt8} {answer : WriteResult}
    (h : Flowing w sent) (hempty : w.conn.outputBuffer.content = [])
    (hsmall : piece.length ≤ kBufSize) (hs : w.sendInLoop piece answer = .ok w') :
    (Transfer.refuses piece answer = true ∧ w' = w) ∨
      Transfer.refuses piece answer = false ∧ Flowing w' (sent ++ piece) ∧
        tokens w' = tokens w + if w'.conn.outputBuffer.content = [] then 1 else 0 := by
  have hstream := sendInLoop_streaming h.stream hs
  have hidle : w.conn.channel.isWriting = false := by
    rw [← Bool.not_eq_true, h.stream.writing, hempty]
    simp
  have hdirect : w.writesDirectly = true := by
    have hz := (Buffer.content_eq_nil h.stream.valid).mp hempty
    simp [World.writesDirectly, hidle, hz]
  unfold World.sendInLoop at hs
  rw [if_neg (streaming_ne h.stream), if_pos hdirect] at hs
  cases answer with
  | count n =>
    right
    refine ⟨rfl, ?_⟩
    change w.afterWrite piece n = .ok w' at hs
    rw [Stream.accepted, if_neg (by simp [faultError])] at hstream
    unfold World.afterWrite at hs
    dsimp only at hs
    generalize hu : World.queueIf _ _ _ = u at hs
    have huc : u.conn = w.conn := by rw [← hu, World.queueIf_conn, World.emit_conn]
    have hup : u.pending = w.pending ++ if piece.length - n = 0 then [.writeComplete] else [] := by
      rw [← hu, World.queueIf_pending, World.emit_pending, h.callback]
      simp
    have hut : Tame u.pending := by
      rw [hup]
      refine h.tame.append fun f hf => ?_
      split at hf
      · exact .inl (List.mem_singleton.mp hf)
      · cases hf
    obtain ⟨hflow, htok, hc⟩ := bufferRemaining_flowing (huc ▸ h.stream.valid) (huc ▸ hempty)
      (huc ▸ h.callback) hut hsmall hstream hs
    refine ⟨hflow, ?_⟩
    rw [htok, hc, tokens_append hup]
    split
    · rw [if_pos (List.drop_eq_nil_of_le (by omega))]
      rfl
    · rw [if_neg (by rw [List.drop_eq_nil_iff]; omega)]
      rfl
  | failed errno =>
    dsimp only at hs
    by_cases hf : errno = EPIPE ∨ errno = ECONNRESET
    · have hne : errno ≠ EWOULDBLOCK := by rcases hf with rfl | rfl <;> decide
      rw [if_pos ⟨hne, hf⟩] at hs
      cases hs
      exact .inl ⟨by simp [Transfer.refuses, hf], rfl⟩
    · rw [if_neg fun hx => hf hx.2] at hs
      by_cases hp : piece = []
      · subst hp
        cases hs
        exact .inl ⟨by simp [Transfer.refuses], rfl⟩
      · have hfault : ¬faultError w (.failed errno) = true := by
          simpa [faultError, not_or] using fun _ => not_or.mp hf
        rw [Stream.accepted, if_neg hfault] at hstream
        obtain ⟨hflow, htok, hc⟩ := bufferRemaining_flowing (n := 0) h.stream.valid hempty
          h.callback h.tame hsmall hstream hs
        refine .inr ⟨?_, hflow, ?_⟩
        · simpa [Transfer.refuses, hp] using not_or.mp hf
        · rw [htok, hc, List.drop_zero, if_neg hp, Nat.add_zero]

theorem afterDrain_state {w w' : World} (h : w.afterDrain = .ok w') :
    w'.conn.state = w.conn.state := by
  obtain ⟨v, hv, h⟩ := bind_ok h
  have hs := (silent_onChannel hv).state
  cases h
  split
  · rw [(shutdownInLoop_fields _).1, World.queueIf_conn, hs]
  · rw [World.queueIf_conn, hs]

theorem handleWrite_state {w w' : World} {answer : WriteResult}
    (h : w.handleWrite answer = .ok w') : w'.conn.state = w.conn.state := by
  rcases World.handleWrite_ok h with rfl | ⟨-, offered, n, -, h⟩
  · rfl
  · rcases World.onlyIf_ok h with ⟨-, h⟩ | ⟨-, rfl⟩
    · rw [afterDrain_state h, World.setOutput_state, World.emit_conn]
    · rw [World.setOutput_state, World.emit_conn]

/-- A stream that keeps its bytes and hands over more of them has fewer left. -/
theorem content_le {w w' : World} {sent : List UInt8} (h : Streaming w sent)
    (h' : Streaming w' sent) (hle : (handed w.trace).length ≤ (handed w'.trace).length) :
    w'.conn.outputBuffer.content.length ≤ w.conn.outputBuffer.content.length := by
  have hl := congrArg List.length (h.stream.trans h'.stream.symm)
  rw [List.length_append, List.length_append] at hl
  omega

theorem afterDrain_handed {w w' : World} (h : w.afterDrain = .ok w') :
    handed w'.trace = handed w.trace := by
  obtain ⟨v, hv, h⟩ := bind_ok h
  obtain ⟨p, c, -, rfl⟩ := World.onChannel_ok hv
  cases h
  split
  · rw [(shutdownInLoop_fields _).2, World.queueIf_trace]
  · rw [World.queueIf_trace]

theorem handleWrite_handed {w w' : World} {answer : WriteResult}
    (h : w.handleWrite answer = .ok w') : (handed w.trace).length ≤ (handed w'.trace).length := by
  rcases World.handleWrite_ok h with rfl | ⟨-, offered, n, -, h⟩
  · exact le_rfl
  · rcases World.onlyIf_ok h with ⟨-, h⟩ | ⟨-, rfl⟩
    · rw [afterDrain_handed h, World.setOutput_trace, World.emit_trace, handed_append,
        List.length_append]
      exact Nat.le_add_right _ _
    · rw [World.setOutput_trace, World.emit_trace, handed_append, List.length_append]
      exact Nat.le_add_right _ _

/-- `HandleWrite` queues the write-complete functor when it takes the last bytes. -/
theorem handleWrite_flowing {w w' : World} {sent : List UInt8} {answer : WriteResult}
    (h : Flowing w sent) (hw : w.handleWrite answer = .ok w') :
    Flowing w' sent ∧ w'.conn.state = w.conn.state ∧
      (tokens w = (if w.conn.outputBuffer.content = [] then 1 else 0) →
        tokens w' = if w'.conn.outputBuffer.content = [] then 1 else 0) := by
  have hs := handleWrite_streaming h.stream hw
  have hle := content_le h.stream hs (handleWrite_handed hw)
  have hz := Buffer.content_eq_nil h.stream.valid
  have hz' := Buffer.content_eq_nil hs.valid
  obtain ⟨c, hp, hc⟩ := handleWrite_pending h.stream hw
  rw [h.callback, FlowControl.waiting, FlowControl.waiting, ne_eq, ← hz, ← hz'] at hc
  refine ⟨⟨hs, ?_, Nat.le_trans hle h.small, ?_⟩, handleWrite_state hw, fun ht => ?_⟩
  · exact (congrArg Prod.fst (handleWrite_settings hw)).trans h.callback
  · rw [hp]
    refine h.tame.append fun f hf => ?_
    split at hf
    · exact .inl (List.mem_singleton.mp hf)
    · cases hf
  · rw [tokens_append hp, ht]
    by_cases hn : w.conn.outputBuffer.content = []
    · have hn' : w'.conn.outputBuffer.content = [] := by
        rw [hn] at hle
        exact List.eq_nil_of_length_eq_zero (Nat.le_zero.mp hle)
      have hcf : c = false := by
        rw [← Bool.not_eq_true, hc]
        exact fun hx => hx.2.1 hn
      rw [if_pos hn, if_pos hn', hcf]
      rfl
    · rw [if_neg hn]
      by_cases hn' : w'.conn.outputBuffer.content = []
      · rw [if_pos hn', hc.mpr ⟨rfl, hn, hn'⟩]
        rfl
      · have hcf : c = false := by
          rw [← Bool.not_eq_true, hc]
          exact fun hx => hn' hx.2.2
        rw [if_neg hn', hcf]
        rfl

/-- With nothing buffered `HandleWrite` does nothing. -/
theorem handleWrite_idle {w w' : World} {sent : List UInt8} {answer : WriteResult}
    (h : Streaming w sent) (hempty : w.conn.outputBuffer.content = [])
    (hw : w.handleWrite answer = .ok w') : w' = w := by
  rcases World.handleWrite_ok hw with rfl | ⟨hon, -⟩
  · rfl
  · exact absurd hempty (h.writing.mp hon)

/-! ## The phases of a transfer -/

/-- Sending, given up after a refused write, shut down after the last byte, or closed. -/
inductive Phase (file : List UInt8) (d : Transfer) : Prop where
  | sending {sent rest : List UInt8} (state : d.world.conn.state = .kConnected)
    (flow : Flowing d.world sent) (context : d.context = some rest) (split : sent ++ rest = file)
    (fin : .shutdownWrite ∉ d.world.trace)
    (token : tokens d.world = if d.world.conn.outputBuffer.content = [] then 1 else 0)
  | stalled {sent : List UInt8} (state : d.world.conn.state = .kConnected)
    (flow : Flowing d.world sent) (split : sent <+: file) (fin : .shutdownWrite ∉ d.world.trace)
    (empty : d.world.conn.outputBuffer.content = []) (token : tokens d.world = 0)
    (refused : d.refused = true)
  | finished (state : d.world.conn.state = .kDisconnecting) (flow : Flowing d.world file)
    (empty : d.world.conn.outputBuffer.content = []) (token : tokens d.world = 0)
  | closed (state : d.world.conn.state = .kDisconnected)
    (events : d.world.conn.channel.events = Events.kNoneEvent)
    (split : handed d.world.trace <+: file)
    (fin : .shutdownWrite ∈ d.world.trace → handed d.world.trace = file)
    (small : d.world.conn.outputBuffer.content.length ≤ kBufSize)
    (context : .writeComplete ∈ d.world.pending → d.context.isSome = true)
    (tame : Tame d.world.pending)

/-- What a transfer has promised whatever its phase. -/
structure Faithful (file : List UInt8) (d : Transfer) : Prop where
  handed : handed d.world.trace <+: file
  fin : .shutdownWrite ∈ d.world.trace → Stream.handed d.world.trace = file
  small : d.world.conn.outputBuffer.content.length ≤ kBufSize
  context : .writeComplete ∈ d.world.pending → d.context.isSome = true
  tame : Tame d.world.pending
  moving : d.world.conn.state = .kConnected → d.refused = false →
    .writeComplete ∈ d.world.pending ∨ d.world.conn.channel.isWriting = true

theorem flowing_handed {w : World} {sent : List UInt8} (h : Flowing w sent)
    (hempty : w.conn.outputBuffer.content = []) : handed w.trace = sent := by
  rw [← h.stream.stream, hempty, List.append_nil]

theorem no_token {w : World} (h : tokens w = 0) : .writeComplete ∉ w.pending :=
  List.count_eq_zero.mp h

theorem Phase.faithful {file : List UInt8} {d : Transfer} (h : Phase file d) : Faithful file d := by
  cases h with
  | sending state flow context split fin token =>
    refine ⟨?_, fun hf => absurd hf fin, flow.small, fun _ => by rw [context]; rfl, flow.tame, ?_⟩
    · rw [← split, ← flow.stream.stream, List.append_assoc]
      exact List.prefix_append _ _
    · intro _ _
      by_cases hc : d.world.conn.outputBuffer.content = []
      · rw [if_pos hc] at token
        exact .inl (List.count_pos_iff.mp (by rw [tokens] at token; omega))
      · exact .inr (flow.stream.writing.mpr hc)
  | stalled state flow split fin empty token refused =>
    refine ⟨?_, fun hf => absurd hf fin, flow.small, fun hm => absurd hm (no_token token),
      flow.tame, fun _ hr => ?_⟩
    · rw [flowing_handed flow empty]
      exact split
    · rw [refused] at hr
      cases hr
  | finished state flow empty token =>
    have hall := flowing_handed flow empty
    refine ⟨hall ▸ List.prefix_refl _, fun _ => hall, flow.small,
      fun hm => absurd hm (no_token token), flow.tame, fun hs => ?_⟩
    rw [state] at hs
    cases hs
  | closed state events split fin small context tame =>
    refine ⟨split, fin, small, context, tame, fun hs => ?_⟩
    rw [state] at hs
    cases hs

/-! ## Poll events -/

/-- `w'` is `w` for all that a transfer looks at. -/
structure Alike (w w' : World) : Prop where
  state : w'.conn.state = w.conn.state
  channel : w'.conn.channel = w.conn.channel
  output : w'.conn.outputBuffer = w.conn.outputBuffer
  callback : w'.conn.writeCompleteCallback = w.conn.writeCompleteCallback
  pending : w'.pending = w.pending
  handed : handed w'.trace = handed w.trace
  fin : .shutdownWrite ∈ w'.trace → .shutdownWrite ∈ w.trace

theorem Alike.flowing {w w' : World} {sent : List UInt8} (ha : Alike w w') (h : Flowing w sent) :
    Flowing w' sent := by
  refine ⟨⟨?_, ?_, ?_, ?_⟩, ha.callback.trans h.callback, ?_, ?_⟩
  · rw [ha.state]
    exact h.stream.isOpen
  · rw [ha.output]
    exact h.stream.valid
  · rw [ha.handed, ha.output]
    exact h.stream.stream
  · rw [ha.channel, ha.output]
    exact h.stream.writing
  · rw [ha.output]
    exact h.small
  · rw [ha.pending]
    exact h.tame

theorem Phase.alike {file : List UInt8} {d : Transfer} {w : World} (ha : Alike d.world w)
    (h : Phase file d) : Phase file { d with world := w } := by
  have htokens : tokens w = tokens d.world := by rw [tokens, ha.pending, tokens]
  cases h with
  | sending state flow context split fin token =>
    refine .sending (ha.state.trans state) (ha.flowing flow) context split (fun hf => fin (ha.fin hf))
      ?_
    rw [htokens, ha.output]
    exact token
  | stalled state flow split fin empty token refused =>
    exact .stalled (ha.state.trans state) (ha.flowing flow) split (fun hf => fin (ha.fin hf))
      (ha.output ▸ empty) (htokens.trans token) refused
  | finished state flow empty token =>
    exact .finished (ha.state.trans state) (ha.flowing flow) (ha.output ▸ empty)
      (htokens.trans token)
  | closed state events split fin small context tame =>
    refine .closed (ha.state.trans state) (ha.channel ▸ events) (ha.handed ▸ split)
      (fun hf => ?_) (ha.output ▸ small) (ha.pending ▸ context) (ha.pending ▸ tame)
    rw [ha.handed]
    exact fin (ha.fin hf)

theorem alike_setInput (w : World) (b : Buffer) : Alike w (w.setInput b) :=
  ⟨rfl, rfl, rfl, rfl, rfl, rfl, id⟩

theorem alike_message (w : World) (b : Buffer) :
    Alike w ((w.setInput b).emit .messageCallback) := by
  refine ⟨rfl, rfl, rfl, rfl, rfl, (sameStream_message w b).handedOver, fun hf => ?_⟩
  simpa [World.setInput] using hf

/-- `HandleClose` ends the transfer with what was handed over so far. -/
theorem handleClose_phase {file : List UInt8} {d : Transfer} {w : World} (h : Phase file d)
    (hc : d.world.handleClose [] = .ok w) : Phase file { d with world := w } := by
  have hf := h.faithful
  unfold World.handleClose at hc
  split at hc
  · obtain ⟨v, hv, hc⟩ := bind_ok hc
    obtain ⟨p, c, hop, rfl⟩ := World.onChannel_ok hv
    have he := (EpollPoller.updateChannel_keeps hop).2.2
    cases hc
    have hnone : c.events = Events.kNoneEvent := by
      rw [he]
      simp [Events.and, Events.kNoneEvent]
    refine .closed rfl hnone ?_ ?_ hf.small hf.context hf.tame
    · simpa [handed_append, handed, World.setState] using hf.handed
    · intro hm
      have hold : .shutdownWrite ∈ d.world.trace := by simpa [World.setState] using hm
      simpa [handed_append, handed, World.setState] using hf.fin hold
  · cases hc

theorem handleRead_phase {file : List UInt8} {d : Transfer} {w : World}
    {answer : Buffer.ReadResult} (h : Phase file d)
    (hr : d.world.handleRead answer [] [] = .ok w) : Phase file { d with world := w } := by
  unfold World.handleRead at hr
  split at hr
  · exact handleClose_phase h hr
  · obtain ⟨b, -, hr⟩ := bind_ok hr
    cases hr
    exact h.alike (alike_message d.world b)
  · cases hr
    exact h

theorem handleWrite_phase {file : List UInt8} {d : Transfer} {w : World} {answer : WriteResult}
    (h : Phase file d) (hw : d.world.handleWrite answer = .ok w) :
    Phase file { d with world := w } := by
  cases h with
  | sending state flow context split fin token =>
    obtain ⟨hflow, hstate, htok⟩ := handleWrite_flowing flow hw
    refine .sending (hstate.trans state) hflow context split (fun hf => ?_) (htok token)
    have hpos : 0 < halfCloses w.trace := List.count_pos_iff.mpr hf
    have hzero : halfCloses d.world.trace = 0 := List.count_eq_zero.mpr fin
    exact ((handleWrite_flushed flow.stream hw).issue (by omega)).2 (hstate.trans state)
  | stalled state flow split fin empty token refused =>
    rw [handleWrite_idle flow.stream empty hw]
    exact .stalled state flow split fin empty token refused
  | finished state flow empty token =>
    rw [handleWrite_idle flow.stream empty hw]
    exact .finished state flow empty token
  | closed state events split fin small context tame =>
    rw [Registration.handleWrite_closed events hw]
    exact .closed state events split fin small context tame

theorem handleEvent_phase {file : List UInt8} {d d' : Transfer} {revents : Events}
    {read : Buffer.ReadResult} {write : WriteResult} (h : Phase file d)
    (he : d.handleEvent revents read write = .ok d') : Phase file d' := by
  obtain ⟨w, hw, he⟩ := bind_ok he
  obtain ⟨u, hu, hw⟩ := bind_ok hw
  obtain ⟨v, hv, hw⟩ := bind_ok hw
  cases he
  have hpu : Phase file { d with world := u } := by
    rcases World.onlyIf_ok hu with ⟨-, hu⟩ | ⟨-, rfl⟩
    · exact handleClose_phase h hu
    · exact h
  have hpv : Phase file { d with world := v } := by
    rcases World.onlyIf_ok hv with ⟨-, hv⟩ | ⟨-, rfl⟩
    · exact handleRead_phase (d := { d with world := u }) hpu hv
    · exact hpu
  have hpw : Phase file { d with world := w } := by
    rcases World.onlyIf_ok hw with ⟨-, hw⟩ | ⟨-, rfl⟩
    · exact handleWrite_phase (d := { d with world := v }) hpv hw
    · exact hpv
  exact Phase.alike (d := { d with world := w }) (alike_setInput w _) hpw

/-! ## The functors -/

theorem Flowing.pop {w : World} {sent : List UInt8} {f : PendingFunctor}
    {fs : List PendingFunctor} (h : Flowing w sent) (hq : w.pending = f :: fs) :
    Flowing { w with pending := fs } sent :=
  ⟨⟨h.stream.isOpen, h.stream.valid, h.stream.stream, h.stream.writing⟩, h.callback, h.small,
    fun g hg => h.tame g (hq ▸ List.mem_cons_of_mem f hg)⟩

/-- A piece is sent on a connection with nothing under way. -/
theorem send_phase {file sent piece rest : List UInt8} {d d' : Transfer} {answer : WriteResult}
    (h : d.send piece answer = .ok d') (state : d.world.conn.state = .kConnected)
    (flow : Flowing d.world sent) (context : d.context = some rest)
    (split : sent ++ piece ++ rest = file) (fin : .shutdownWrite ∉ d.world.trace)
    (empty : d.world.conn.outputBuffer.content = []) (token : tokens d.world = 0)
    (small : piece.length ≤ kBufSize) : Phase file d' := by
  obtain ⟨w, hw, h⟩ := bind_ok h
  simp only [World.call, state, ↓reduceIte] at hw
  have hsilent := silent_sendInLoop hw
  cases h
  rcases sendInLoop_flowing flow empty small hw with ⟨hr, rfl⟩ | ⟨-, hflow, htok⟩
  · refine .stalled state flow ?_ fin empty token ?_
    · rw [← split, List.append_assoc]
      exact List.prefix_append _ _
    · simp [hr]
  · refine .sending (hsilent.state.trans state) hflow context split (fun hf => fin ?_) ?_
    · exact mem_of_halfCloses (Nat.le_of_eq hsilent.issued) hf
    · rw [htok, token, Nat.zero_add]

/-- `Shutdown` with nothing under way half-closes at once. -/
theorem shutdown_phase {file : List UInt8} {d d' : Transfer} (h : d.shutdown = .ok d')
    (state : d.world.conn.state = .kConnected) (flow : Flowing d.world file)
    (empty : d.world.conn.outputBuffer.content = []) (token : tokens d.world = 0) :
    Phase file d' := by
  obtain ⟨w, hw, h⟩ := bind_ok h
  simp only [World.call, state, ↓reduceIte] at hw
  cases h
  cases hw
  obtain ⟨hc, hh⟩ := shutdownInLoop_fields (d.world.setState .kDisconnecting)
  have hp := shutdownInLoop_pending (d.world.setState .kDisconnecting)
  refine .finished ?_ ⟨?_, ?_, ?_, ?_⟩ ?_ ?_
  · rw [hc]
    rfl
  · exact shutdownInLoop_streaming (setState_streaming flow.stream)
  · rw [hc]
    exact flow.callback
  · rw [hc]
    exact flow.small
  · rw [hp]
    exact flow.tame
  · rw [hc]
    exact empty
  · rw [tokens, hp]
    exact token

theorem onWriteComplete_phase {file : List UInt8} {d d' : Transfer} {answer : WriteResult}
    {fs : List PendingFunctor} (h : Phase file d) (hq : d.world.pending = .writeComplete :: fs)
    (hw : Transfer.onWriteComplete { d with world := { d.world with pending := fs } } answer =
      .ok d') : Phase file d' := by
  have htokens : tokens d.world = fs.count .writeComplete + 1 := by
    rw [tokens, hq, List.count_cons_self]
  cases h with
  | sending state flow context split fin token =>
    rename_i sent rest
    have hempty : d.world.conn.outputBuffer.content = [] := by
      by_contra hne
      rw [if_neg hne] at token
      omega
    rw [if_pos hempty] at token
    have hnone : fs.count .writeComplete = 0 := by omega
    simp only [Transfer.onWriteComplete, context] at hw
    split at hw
    · refine send_phase hw state (flow.pop hq) rfl ?_ fin hempty hnone
        (List.length_take_le _ _)
      rw [List.append_assoc, List.take_append_drop]
      exact split
    · rename_i hz
      have hrest : rest = [] := by
        refine List.eq_nil_of_length_eq_zero ?_
        rw [List.length_take, kBufSize] at hz
        omega
      rw [hrest, List.append_nil] at split
      exact shutdown_phase hw state (split ▸ flow.pop hq) hempty hnone
  | stalled state flow split fin empty token refused => omega
  | finished state flow empty token => omega
  | closed state events split fin small context tame =>
    have hsome := context (hq ▸ List.mem_cons_self)
    obtain ⟨rest, hctx⟩ := Option.isSome_iff_exists.mp hsome
    have htame : Tame fs := fun g hg => tame g (hq ▸ List.mem_cons_of_mem _ hg)
    simp only [Transfer.onWriteComplete, hctx, Transfer.send, Transfer.shutdown, World.call, state,
      reduceCtorEq, ↓reduceIte] at hw
    split at hw
    · cases hw
      exact .closed state events split fin small (fun _ => rfl) htame
    · cases hw
      exact .closed state events split fin small (fun _ => rfl) htame

theorem functor_phase {file : List UInt8} {d d' : Transfer} {answer : WriteResult}
    {f : PendingFunctor} {fs : List PendingFunctor} (h : Phase file d)
    (hq : d.world.pending = f :: fs)
    (hr : Transfer.runFunctor { d with world := { d.world with pending := fs } } answer f =
      .ok d') : Phase file d' := by
  obtain rfl | ⟨n, rfl⟩ := h.faithful.tame f (hq ▸ List.mem_cons_self)
  · exact onWriteComplete_phase h hq hr
  · cases hr
    have htokens : fs.count .writeComplete = tokens d.world := by
      rw [tokens, hq, List.count_cons_of_ne (by simp)]
    cases h with
    | sending state flow context split fin token =>
      exact .sending state (flow.pop hq) context split fin (htokens.trans token)
    | stalled state flow split fin empty token refused =>
      exact .stalled state (flow.pop hq) split fin empty (htokens.trans token) refused
    | finished state flow empty token =>
      exact .finished state (flow.pop hq) empty (htokens.trans token)
    | closed state events split fin small context tame =>
      exact .closed state events split fin small
        (fun hm => context (hq ▸ List.mem_cons_of_mem _ hm))
        fun g hg => tame g (hq ▸ List.mem_cons_of_mem _ hg)

theorem step_phase {file : List UInt8} {d d' : Transfer} {a : TransferStep} (h : Phase file d)
    (hs : Step d a d') : Phase file d' := by
  cases a with
  | functor answer =>
    cases hq : d.world.pending with
    | nil =>
      rw [Step, perform, hq] at hs
      cases hs
    | cons f fs =>
      rw [Step, perform, hq] at hs
      exact functor_phase h hq hs
  | event revents read write => exact handleEvent_phase h hs

theorem run_phase {file : List UInt8} {d d' : Transfer} {steps : List TransferStep}
    (hr : Run Step d steps d') (h : Phase file d) : Phase file d' :=
  hr.invariant (P := Phase file) (fun _ _ _ hp hs => step_phase hp hs) h

/-! ## From the start -/

theorem start_phase {addr : Nat} {sockfd : Int} {file : Option (List UInt8)}
    {answer : WriteResult} {d : Transfer} (h : Transfer.start addr sockfd file answer = .ok d) :
    Phase (file.getD []) d := by
  obtain ⟨w, hw, h⟩ := bind_ok h
  have hstream : Streaming w [] := established_streaming rfl rfl hw
  have hempty : w.conn.outputBuffer.content = [] := (List.append_eq_nil_iff.mp hstream.stream).2
  obtain ⟨v, hv, hw⟩ := bind_ok hw
  obtain ⟨p, c, -, rfl⟩ := World.onChannel_ok hv
  cases hw
  have hflow : Flowing _ [] := ⟨hstream, rfl, by rw [hempty]; exact Nat.zero_le _, nofun⟩
  cases file with
  | some bytes =>
    refine send_phase h rfl hflow rfl ?_ (by simp [World.setState]) hempty rfl
      (List.length_take_le _ _)
    rw [List.nil_append, List.take_append_drop]
    rfl
  | none => exact shutdown_phase h rfl hflow hempty rfl

/-- Whatever the kernel answers and in whatever order the loop runs functors and events: the
bytes handed to the kernel are the beginning of the file, no more than one piece is ever
buffered, the half-close comes after the last byte of the file, `OnWriteComplete` always
finds its file, and until then the transfer never stops unless a write was refused. -/
theorem file_sent_in_pieces (addr : Nat) (sockfd : Int) (file : Option (List UInt8))
    {answer : WriteResult} {d₀ d : Transfer} {steps : List TransferStep}
    (h₀ : Transfer.start addr sockfd file answer = .ok d₀) (hr : Run Step d₀ steps d) :
    Faithful (file.getD []) d :=
  (run_phase hr (start_phase h₀)).faithful

/-- A piece that the kernel takes at once: only its write-complete functor is left. -/
theorem send_whole {d : Transfer} (piece : List UInt8) (hstate : d.world.conn.state = .kConnected)
    (hdirect : d.world.writesDirectly = true)
    (hcallback : d.world.conn.writeCompleteCallback = true) :
    d.send piece (.count piece.length) = .ok { d with
      world := (d.world.emit (.wrote piece)).queueInLoop .writeComplete } := by
  unfold Transfer.send World.call World.sendInLoop World.afterWrite
  simp [hstate, hdirect, hcallback, World.queueIf, World.bufferRemaining, Transfer.refuses]

/-- The first piece of a file, taken at once by a new connection. -/
theorem start_whole (bytes : List UInt8) : ∃ w : World,
    w.conn.state = .kConnected ∧ w.writesDirectly = true ∧
    w.conn.writeCompleteCallback = true ∧ w.pending = [] ∧
    Transfer.start 1 5 (some bytes) (.count (bytes.take kBufSize).length) =
      .ok ⟨(w.emit (.wrote (bytes.take kBufSize))).queueInLoop .writeComplete,
        some (bytes.drop kBufSize), false⟩ := by
  unfold Transfer.start
  have hok : (World.connectEstablished ⟨TcpConnection.new 1 5 true true (kBufSize + 1),
      ⟨fun _ => none, fun _ => none⟩, [], []⟩ []).toOption.map (fun w =>
        decide (w.conn.state = .kConnected ∧ w.writesDirectly = true ∧
          w.conn.writeCompleteCallback = true ∧ w.pending = [])) = some true := by decide +kernel
  cases hw : World.connectEstablished ⟨TcpConnection.new 1 5 true true (kBufSize + 1),
      ⟨fun _ => none, fun _ => none⟩, [], []⟩ [] with
  | error e =>
    rw [hw] at hok
    cases hok
  | ok w =>
    rw [hw] at hok
    obtain ⟨hstate, hdirect, hcallback, hpending⟩ :=
      of_decide_eq_true (Option.some.inj hok)
    exact ⟨w, hstate, hdirect, hcallback, hpending, send_whole _ hstate hdirect hcallback⟩

/-- The next piece, once the one before is complete. -/
theorem functor_whole {w : World} {rest : List UInt8} {refused : Bool}
    (hpending : w.pending = [.writeComplete]) (hstate : w.conn.state = .kConnected)
    (hdirect : w.writesDirectly = true) (hcallback : w.conn.writeCompleteCallback = true)
    (hmore : 0 < (rest.take kBufSize).length) :
    Step ⟨w, some rest, refused⟩ (.functor (.count (rest.take kBufSize).length))
      ⟨({ w with pending := [] }.emit (.wrote (rest.take kBufSize))).queueInLoop .writeComplete,
        some (rest.drop kBufSize), refused⟩ := by
  unfold Step perform
  rw [hpending]
  show Transfer.onWriteComplete ⟨{ w with pending := [] }, some rest, refused⟩ _ = _
  unfold Transfer.onWriteComplete
  dsimp only
  rw [if_pos hmore]
  exact send_whole _ hstate hdirect hcallback

/-- Behind the last piece. -/
theorem functor_end {w : World} {answer : WriteResult} {refused : Bool}
    (hpending : w.pending = [.writeComplete]) (hstate : w.conn.state = .kConnected)
    (hidle : w.conn.channel.isWriting = false) :
    Step ⟨w, some [], refused⟩ (.functor answer)
      ⟨({ w with pending := [] }.setState .kDisconnecting).emit .shutdownWrite, some [],
        refused⟩ := by
  unfold Step perform
  rw [hpending]
  show Transfer.shutdown ⟨{ w with pending := [] }, some [], refused⟩ = _
  unfold Transfer.shutdown World.call World.shutdownInLoop
  simp [hstate, hidle, World.setState]

/-- A file of one piece and a byte. -/
def twoPieces : List UInt8 := List.replicate (kBufSize + 1) 97

/-- Three bytes of which the kernel takes one at first and two when it can again; and two
pieces that it takes at once. -/
theorem pieces_sent :
    (∃ d₀ d, Transfer.start 1 5 (some [97, 98, 99]) (.count 1) = .ok d₀ ∧
      Run Step d₀ [.event .kWriteEvent (.failed 11) (.count 2), .functor (.count 0)] d ∧
      handed d.world.trace = [97, 98, 99]) ∧
    ∃ d₀ d, Transfer.start 1 5 (some twoPieces) (.count kBufSize) = .ok d₀ ∧
      Run Step d₀ [.functor (.count 1), .functor (.count 0)] d ∧
      handed d.world.trace = twoPieces := by
  constructor
  · have hok : ((Transfer.start 1 5 (some [97, 98, 99]) (.count 1)).toOption.bind fun d₀ =>
        (Run.exec (fun _ _ => True) perform d₀
          [.event .kWriteEvent (.failed 11) (.count 2), .functor (.count 0)]).map fun d =>
            decide (.shutdownWrite ∈ d.world.trace)) = some true := by decide +kernel
    cases hs : Transfer.start 1 5 (some [97, 98, 99]) (.count 1) with
    | error e =>
      rw [hs] at hok
      cases hok
    | ok d₀ =>
      rw [hs] at hok
      obtain ⟨d, hd, hfin⟩ := Option.map_eq_some_iff.mp hok
      have hr : Run Step d₀ _ d := (Run.of_exec hd).mono fun _ _ _ h => h.2
      exact ⟨d₀, d, rfl, hr,
        (file_sent_in_pieces 1 5 (some [97, 98, 99]) hs hr).fin (of_decide_eq_true hfin)⟩
  · have hfirst : (twoPieces.take kBufSize).length = kBufSize := by simp [twoPieces]
    have hrest : twoPieces.drop kBufSize = [97] := by simp [twoPieces]
    obtain ⟨w, hstate, hdirect, hcallback, hpending, hs⟩ := start_whole twoPieces
    rw [hfirst, hrest] at hs
    let w₁ := (w.emit (.wrote (twoPieces.take kBufSize))).queueInLoop .writeComplete
    let w₂ := ({ w₁ with pending := [] }.emit (.wrote [97])).queueInLoop .writeComplete
    let w₃ := ({ w₂ with pending := [] }.setState .kDisconnecting).emit .shutdownWrite
    have hpending₁ : w₁.pending = [.writeComplete] := by
      show w.pending ++ [.writeComplete] = _
      rw [hpending]
      rfl
    have hsecond : Step ⟨w₁, some [97], false⟩ (.functor (.count 1)) ⟨w₂, some [], false⟩ :=
      functor_whole hpending₁ hstate hdirect hcallback (by decide)
    have hlast : Step ⟨w₂, some [], false⟩ (.functor (.count 0)) ⟨w₃, some [], false⟩ := by
      have hidle : w.conn.channel.isWriting = false := by
        simpa using (Bool.and_eq_true_iff.mp hdirect).1
      exact functor_end rfl hstate hidle
    have hr := Run.cons hsecond (Run.single hlast)
    exact ⟨_, _, hs, hr,
      (file_sent_in_pieces 1 5 (some twoPieces) hs hr).fin (List.mem_append_right _ (by simp))⟩

end RyanNetwork.Servers.FileTransfer
