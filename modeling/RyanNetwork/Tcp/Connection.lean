import RyanNetwork.Lib.Outcome
import RyanNetwork.Net.Channel

/-!
# `TcpConnection` on its I/O loop

One connection with the poller of its loop, the functors that it has queued
there, and the trace of what leaves the program: bytes and half-closes given to
the kernel, user callbacks called. The answers of system calls and the calls a
user callback makes are arguments of the step that meets them, so a run ranges
over all of them.
-/
namespace RyanNetwork.Tcp

set_option autoImplicit false

inductive StateE where
  | kDisconnected
  | kConnecting
  | kConnected
  | kDisconnecting
  deriving DecidableEq, Repr

def EWOULDBLOCK : Nat := 11

def EPIPE : Nat := 32

def ECONNRESET : Nat := 104

/-- What `::write` answers: a count, or `-1` and `errno`. -/
inductive WriteResult where
  | count (n : Nat)
  | failed (errno : Nat)
  deriving DecidableEq, Repr

/-- A count never exceeds the number of bytes offered. -/
def WriteResult.Fits (offered : Nat) : WriteResult → Prop
  | .count n => n ≤ offered
  | .failed _ => True

/-- The functors a connection queues on its loop. -/
inductive PendingFunctor where
  | sendInLoop (message : List UInt8)
  | shutdownInLoop
  | forceCloseInLoop
  | startReadInLoop
  | stopReadInLoop
  | writeComplete
  | highWatermark (len : Nat)
  deriving DecidableEq, Repr

/-- What a connection does to its surroundings. A connection callback is
recorded with the state it sees. -/
inductive Effect where
  | wrote (data : List UInt8)
  | shutdownWrite
  | connectionCallback (state : StateE)
  | messageCallback
  | closeCallback
  deriving DecidableEq, Repr

/-- How often `close_callback_` was called. -/
def closeCalls (trace : List Effect) : Nat := trace.count .closeCallback

/-- The two optional callbacks are represented by whether they are set. -/
structure TcpConnection where
  state : StateE
  reading : Bool
  channel : Channel
  writeCompleteCallback : Bool
  highWatermarkCallback : Bool
  highWatermark : Nat
  inputBuffer : Buffer
  outputBuffer : Buffer

/-- The constructor, then `SetWriteCompleteCallback` and `SetHighWatermarkCallback`. -/
def TcpConnection.new (addr : Nat) (sockfd : Int) (writeComplete highWatermarkSet : Bool)
    (highWatermark : Nat) : TcpConnection where
  state := .kConnecting
  reading := true
  channel := Channel.new addr sockfd
  writeCompleteCallback := writeComplete
  highWatermarkCallback := highWatermarkSet
  highWatermark := highWatermark
  inputBuffer := Buffer.ofDefaultSize
  outputBuffer := Buffer.ofDefaultSize

structure World where
  conn : TcpConnection
  poller : EpollPoller
  pending : List PendingFunctor
  trace : List Effect

namespace World

def emit (w : World) (e : Effect) : World := { w with trace := w.trace ++ [e] }

def queueInLoop (w : World) (f : PendingFunctor) : World := { w with pending := w.pending ++ [f] }

def queueIf (w : World) (c : Bool) (f : PendingFunctor) : World :=
  if c then w.queueInLoop f else w

/-- A branch without an alternative. -/
def onlyIf (w : World) (c : Bool) (f : World → Except Fault World) : Except Fault World :=
  if c then f w else .ok w

def setState (w : World) (s : StateE) : World := { w with conn := { w.conn with state := s } }

def setOutput (w : World) (b : Buffer) : World := { w with conn := { w.conn with outputBuffer := b } }

def setInput (w : World) (b : Buffer) : World := { w with conn := { w.conn with inputBuffer := b } }

def setReading (w : World) (r : Bool) : World := { w with conn := { w.conn with reading := r } }

@[simp] theorem emit_conn (w : World) (e : Effect) : (w.emit e).conn = w.conn := by
  cases w; rfl

@[simp] theorem emit_poller (w : World) (e : Effect) : (w.emit e).poller = w.poller := by
  cases w; rfl

@[simp] theorem emit_trace (w : World) (e : Effect) : (w.emit e).trace = w.trace ++ [e] := by
  cases w; rfl

@[simp] theorem emit_pending (w : World) (e : Effect) : (w.emit e).pending = w.pending := by
  cases w; rfl

@[simp] theorem queueIf_conn (w : World) (c : Bool) (f : PendingFunctor) :
    (w.queueIf c f).conn = w.conn := by
  cases c <;> rfl

@[simp] theorem queueIf_poller (w : World) (c : Bool) (f : PendingFunctor) :
    (w.queueIf c f).poller = w.poller := by
  cases c <;> rfl

@[simp] theorem queueIf_trace (w : World) (c : Bool) (f : PendingFunctor) :
    (w.queueIf c f).trace = w.trace := by
  cases c <;> rfl

theorem queueIf_pending (w : World) (c : Bool) (f : PendingFunctor) :
    (w.queueIf c f).pending = w.pending ++ if c then [f] else [] := by
  cases c with
  | true => rfl
  | false => exact (List.append_nil _).symm

@[simp] theorem setOutput_output (w : World) (b : Buffer) :
    (w.setOutput b).conn.outputBuffer = b := by
  cases w; rfl

@[simp] theorem setOutput_channel (w : World) (b : Buffer) :
    (w.setOutput b).conn.channel = w.conn.channel := by
  cases w; rfl

@[simp] theorem setOutput_state (w : World) (b : Buffer) :
    (w.setOutput b).conn.state = w.conn.state := by
  cases w; rfl

@[simp] theorem setOutput_poller (w : World) (b : Buffer) :
    (w.setOutput b).poller = w.poller := by
  cases w; rfl

@[simp] theorem setOutput_trace (w : World) (b : Buffer) : (w.setOutput b).trace = w.trace := by
  cases w; rfl

@[simp] theorem setOutput_pending (w : World) (b : Buffer) :
    (w.setOutput b).pending = w.pending := by
  cases w; rfl

theorem onlyIf_ok {w w' : World} {c : Bool} {f : World → Except Fault World}
    (h : w.onlyIf c f = .ok w') : (c = true ∧ f w = .ok w') ∨ (c = false ∧ w' = w) := by
  cases c with
  | true => exact Or.inl ⟨rfl, h⟩
  | false =>
    cases h
    exact Or.inr ⟨rfl, rfl⟩

/-- An operation of the channel, which goes through the poller. -/
def onChannel (w : World) (op : EpollPoller → Channel → Except Fault (EpollPoller × Channel)) :
    Except Fault World := do
  let (p, c) ← op w.poller w.conn.channel
  return { w with poller := p, conn := { w.conn with channel := c } }

theorem onChannel_ok {w w' : World}
    {op : EpollPoller → Channel → Except Fault (EpollPoller × Channel)}
    (h : w.onChannel op = .ok w') :
    ∃ p c, op w.poller w.conn.channel = .ok (p, c) ∧
      w' = { w with poller := p, conn := { w.conn with channel := c } } := by
  obtain ⟨⟨p, c⟩, hop, h⟩ := Lib.bind_ok h
  cases h
  exact ⟨p, c, hop, rfl⟩

/-! ## Sending -/

/-- Whether `SendInLoop` reports that the output buffer reached the mark. -/
def reachesHighWatermark (c : TcpConnection) (oldLen newLen : Nat) : Bool :=
  c.highWatermark ≤ newLen && oldLen < c.highWatermark && c.highWatermarkCallback

/-- The tail of `SendInLoop`: what was not written is appended to the output
buffer, and the channel starts to watch for writability. -/
def bufferRemaining (w : World) (data : List UInt8) (nwrote remaining : Nat) :
    Except Fault World :=
  if 0 < remaining then do
    let oldLen := w.conn.outputBuffer.readableBytes
    let newLen := Lib.SizeT.add oldLen remaining
    let b ← w.conn.outputBuffer.append ((data.drop nwrote).take remaining)
    let w := (w.queueIf (reachesHighWatermark w.conn oldLen newLen) (.highWatermark newLen)).setOutput b
    w.onlyIf (!w.conn.channel.isWriting) (·.onChannel Channel.enableWriting)
  else .ok w

/-- The condition under which `SendInLoop` calls `::write` itself. -/
def writesDirectly (w : World) : Bool :=
  !w.conn.channel.isWriting && w.conn.outputBuffer.readableBytes == 0

/-- `SendInLoop` after a direct write of `n` bytes. -/
def afterWrite (w : World) (data : List UInt8) (n : Nat) : Except Fault World :=
  let remaining := data.length - n
  ((w.emit (.wrote (data.take n))).queueIf (remaining == 0 && w.conn.writeCompleteCallback)
    .writeComplete).bufferRemaining data n remaining

def sendInLoop (w : World) (data : List UInt8) (answer : WriteResult) : Except Fault World :=
  if w.conn.state = .kDisconnected then .ok w
  else if w.writesDirectly then
    match answer with
    | .count n => w.afterWrite data n
    | .failed errno =>
      if errno ≠ EWOULDBLOCK ∧ (errno = EPIPE ∨ errno = ECONNRESET) then .ok w
      else w.bufferRemaining data 0 data.length
  else w.bufferRemaining data 0 data.length

/-- What the tail of `SendInLoop` can do. -/
theorem bufferRemaining_ok {w w' : World} {data : List UInt8} {n r : Nat}
    (h : w.bufferRemaining data n r = .ok w') : w' = w ∨
      ∃ b c len v, v = (w.queueIf c (.highWatermark len)).setOutput b ∧
        (w' = v ∨ v.onChannel Channel.enableWriting = .ok w') := by
  unfold bufferRemaining at h
  split at h
  · obtain ⟨b, -, h⟩ := Lib.bind_ok h
    rcases onlyIf_ok h with ⟨-, h⟩ | ⟨-, h⟩
    · exact Or.inr ⟨b, _, _, _, rfl, Or.inr h⟩
    · exact Or.inr ⟨b, _, _, _, rfl, Or.inl h⟩
  · cases h
    exact Or.inl rfl

/-- What `SendInLoop` can do: nothing, write at once, or buffer everything. -/
theorem sendInLoop_ok {w w' : World} {data : List UInt8} {answer : WriteResult}
    (h : w.sendInLoop data answer = .ok w') : w' = w ∨
      (∃ n c, ((w.emit (.wrote (data.take n))).queueIf c .writeComplete).bufferRemaining data n
        (data.length - n) = .ok w') ∨
      w.bufferRemaining data 0 data.length = .ok w' := by
  unfold sendInLoop at h
  split at h
  · cases h
    exact Or.inl rfl
  · split at h
    · cases answer with
      | count n => exact Or.inr (Or.inl ⟨n, _, h⟩)
      | failed errno =>
        dsimp only at h
        split at h
        · cases h
          exact Or.inl rfl
        · exact Or.inr (Or.inr h)
    · exact Or.inr (Or.inr h)

/-! ## Calls of the user -/

def shutdownInLoop (w : World) : World :=
  if w.conn.channel.isWriting then w else w.emit .shutdownWrite

/-- `state_ == kConnected || state_ == kDisconnecting`. -/
def isOpen (w : World) : Bool := w.conn.state = .kConnected || w.conn.state = .kDisconnecting

theorem isOpen_iff (w : World) :
    w.isOpen = true ↔ w.conn.state = .kConnected ∨ w.conn.state = .kDisconnecting := by
  simp [isOpen]

def startReadInLoop (w : World) : Except Fault World :=
  if !w.conn.reading || !w.conn.channel.isReading then do
    let w ← w.onChannel Channel.enableReading
    return w.setReading true
  else .ok w

def stopReadInLoop (w : World) : Except Fault World :=
  if w.conn.reading || w.conn.channel.isReading then do
    let w ← w.onChannel Channel.disableReading
    return w.setReading false
  else .ok w

theorem startReadInLoop_ok {w w' : World} (h : w.startReadInLoop = .ok w') :
    w' = w ∨ ∃ v, w.onChannel Channel.enableReading = .ok v ∧ w' = v.setReading true := by
  unfold startReadInLoop at h
  split at h
  · obtain ⟨v, hv, h⟩ := Lib.bind_ok h
    cases h
    exact Or.inr ⟨v, hv, rfl⟩
  · cases h
    exact Or.inl rfl

theorem stopReadInLoop_ok {w w' : World} (h : w.stopReadInLoop = .ok w') :
    w' = w ∨ ∃ v, w.onChannel Channel.disableReading = .ok v ∧ w' = v.setReading false := by
  unfold stopReadInLoop at h
  split at h
  · obtain ⟨v, hv, h⟩ := Lib.bind_ok h
    cases h
    exact Or.inr ⟨v, hv, rfl⟩
  · cases h
    exact Or.inl rfl

/-- A call of the connection's interface. The answer of `::write` matters only
on the loop thread, where `Send` may write at once. -/
inductive Call where
  | send (data : List UInt8) (answer : WriteResult)
  | shutdown
  | forceClose
  | startRead
  | stopRead
  deriving DecidableEq, Repr

/-- A call made on the loop thread, where `RunInLoop` runs its functor at once. -/
def call (w : World) : Call → Except Fault World
  | .send data answer => if w.conn.state = .kConnected then w.sendInLoop data answer else .ok w
  | .shutdown =>
    if w.conn.state = .kConnected then .ok (w.setState .kDisconnecting).shutdownInLoop else .ok w
  | .forceClose =>
    if w.isOpen then .ok ((w.setState .kDisconnecting).queueInLoop .forceCloseInLoop) else .ok w
  | .startRead => w.startReadInLoop
  | .stopRead => w.stopReadInLoop

/-- The same call made on another thread, where `RunInLoop` queues its functor. The test of
`state_` and the queueing are one step here: no step of the loop thread comes between them. -/
def callFromOther (w : World) : Call → World
  | .send data _ => if w.conn.state = .kConnected then w.queueInLoop (.sendInLoop data) else w
  | .shutdown =>
    if w.conn.state = .kConnected then (w.setState .kDisconnecting).queueInLoop .shutdownInLoop
    else w
  | .forceClose =>
    if w.isOpen then (w.setState .kDisconnecting).queueInLoop .forceCloseInLoop else w
  | .startRead => w.queueInLoop .startReadInLoop
  | .stopRead => w.queueInLoop .stopReadInLoop

/-- The calls a user callback makes before it returns. -/
def calls (w : World) : List Call → Except Fault World
  | [] => .ok w
  | c :: cs => do
    let w ← w.call c
    w.calls cs

/-! ## Establishing, closing and destroying -/

def connectEstablished (w : World) (onUp : List Call) : Except Fault World := do
  let w := w.setState .kConnected
  let w ← w.onChannel Channel.enableReading
  (w.emit (.connectionCallback w.conn.state)).calls onUp

def handleClose (w : World) (onDown : List Call) : Except Fault World :=
  if w.isOpen then do
    let w := w.setState .kDisconnected
    let w ← w.onChannel Channel.disableAll
    let w ← (w.emit (.connectionCallback w.conn.state)).calls onDown
    return w.emit .closeCallback
  else .error .assertion

/-- The part of `ConnectDestroyed` before `channel_->Remove()`. -/
def disconnect (w : World) (onDown : List Call) : Except Fault World :=
  if w.conn.state = .kConnected then do
    let w := w.setState .kDisconnected
    let w ← w.onChannel Channel.disableAll
    (w.emit (.connectionCallback w.conn.state)).calls onDown
  else .ok w

def connectDestroyed (w : World) (onDown : List Call) : Except Fault World := do
  let w ← w.disconnect onDown
  w.onChannel Channel.remove

def forceCloseInLoop (w : World) (onDown : List Call) : Except Fault World :=
  if w.isOpen then w.handleClose onDown else .ok w

/-! ## Poll events -/

def handleRead (w : World) (answer : Buffer.ReadResult) (onMessage onDown : List Call) :
    Except Fault World :=
  match answer with
  | .received [] => w.handleClose onDown
  | .received data => do
    let b ← w.conn.inputBuffer.readFd (.received data)
    ((w.setInput b).emit .messageCallback).calls onMessage
  | .failed _ => .ok w

/-- `HandleWrite` when the drain has emptied the output buffer. -/
def afterDrain (w : World) : Except Fault World := do
  let w ← w.onChannel Channel.disableWriting
  let w := w.queueIf w.conn.writeCompleteCallback .writeComplete
  return if w.conn.state = .kDisconnecting then w.shutdownInLoop else w

/-- `HandleWrite` after `::write` took the first `n` of the offered bytes. -/
def drained (w : World) (offered : List UInt8) (n : Nat) : Except Fault World :=
  let w := (w.emit (.wrote (offered.take n))).setOutput (w.conn.outputBuffer.retrieve n)
  w.onlyIf (w.conn.outputBuffer.readableBytes == 0) afterDrain

def handleWrite (w : World) (answer : WriteResult) : Except Fault World :=
  if w.conn.channel.isWriting then do
    let offered ← w.conn.outputBuffer.contentToString
    match answer with
    | .count n => if 0 < n then w.drained offered n else .ok w
    | .failed _ => .ok w
  else .ok w

/-- What `HandleWrite` can do: nothing, or drain the output buffer. -/
theorem handleWrite_ok {w w' : World} {answer : WriteResult}
    (h : w.handleWrite answer = .ok w') : w' = w ∨ w.conn.channel.isWriting = true ∧
      ∃ offered n, w.conn.outputBuffer.contentToString = .ok offered ∧
        w.drained offered n = .ok w' := by
  unfold handleWrite at h
  split at h
  · rename_i hw
    obtain ⟨offered, ho, h⟩ := Lib.bind_ok h
    cases answer with
    | count n =>
      dsimp only at h
      split at h
      · exact Or.inr ⟨hw, offered, n, ho, h⟩
      · cases h
        exact Or.inl rfl
    | failed errno =>
      cases h
      exact Or.inl rfl
  · cases h
    exact Or.inl rfl

/-- What the surroundings do while one poll event is handled. -/
structure Answers where
  read : Buffer.ReadResult
  write : WriteResult
  onMessage : List Call
  onDown : List Call

/-- `HandleEventWithGuard`. `HandleError` only logs, and the tie always locks:
the server's table or a queued functor owns the connection. -/
def handleEvent (w : World) (revents : Events) (a : Answers) : Except Fault World := do
  let w ← w.onlyIf (revents.epollhup && !revents.epollin) (·.handleClose a.onDown)
  let w ← w.onlyIf (revents.epollin || revents.epollpri)
    (·.handleRead a.read a.onMessage a.onDown)
  w.onlyIf revents.epollout (·.handleWrite a.write)

/-- Running one functor; `onRun` are the calls made by a user callback in it. -/
def runFunctor (w : World) (answer : WriteResult) (onRun : List Call) :
    PendingFunctor → Except Fault World
  | .sendInLoop message => w.sendInLoop message answer
  | .shutdownInLoop => .ok w.shutdownInLoop
  | .forceCloseInLoop => w.forceCloseInLoop onRun
  | .startReadInLoop => w.startReadInLoop
  | .stopReadInLoop => w.stopReadInLoop
  | .writeComplete => w.calls onRun
  | .highWatermark _ => w.calls onRun

end World

end RyanNetwork.Tcp
