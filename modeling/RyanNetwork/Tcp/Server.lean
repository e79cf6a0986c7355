import RyanNetwork.Lib.Runs
import RyanNetwork.Tcp.Connection

/-!
# `TcpServer` with its loops

The connection table of a server, the functor queues of its base loop (number 0)
and of its I/O loops (numbers 1, 2, …), and the connections it has created, each
with the number its name carries. `RunInLoop` runs a functor at once on its own
loop and queues it on another one, so a server without I/O loops takes the inline
branches. The log is ghost: it records what ran for which connection on which
loop.
-/
namespace RyanNetwork.Tcp

set_option autoImplicit false

/-- An IPv4 address and a port. -/
structure InetAddress where
  a : UInt8
  b : UInt8
  c : UInt8
  d : UInt8
  port : UInt16
  deriving DecidableEq, Repr

/-- Decimal digits, as `%d` and `%u` print them. -/
def decimal (n : Nat) : List Char := Nat.toDigits 10 n

def InetAddress.toIp (addr : InetAddress) : List Char :=
  decimal addr.a.toNat ++ '.' :: decimal addr.b.toNat ++ '.' :: decimal addr.c.toNat ++
    '.' :: decimal addr.d.toNat

def InetAddress.toIpPort (addr : InetAddress) : List Char :=
  addr.toIp ++ ':' :: decimal addr.port.toNat

/-- `snprintf(buf, size, …)`: the text cut off to fit `size` with its final NUL. -/
def snprintf (size : Nat) (text : List Char) : List Char := text.take (size - 1)

/-- A connection that the server has created, with the number of its loop. -/
structure Conn where
  name : List Char
  loop : Nat
  world : World

/-- The functors that the server and its connections queue on the loops. -/
inductive LoopFunctor where
  | connectEstablished (c : Nat)
  | removeConnectionInLoop (c : Nat)
  | connectDestroyed (c : Nat)
  | connection (c : Nat) (f : PendingFunctor)
  deriving DecidableEq, Repr

/-- What the log records about a connection. -/
inductive Moment where
  | newConnection
  | connectEstablished
  | event
  | handleClose
  | removeConnectionInLoop
  | connectDestroyed
  deriving DecidableEq, Repr

structure LogEntry where
  conn : Nat
  loop : Nat
  moment : Moment
  deriving DecidableEq, Repr

structure TcpServer where
  name : List Char
  ipPort : List Char
  writeCompleteCallback : Bool
  loops : Nat
  next : Nat
  nextConnId : Nat
  connections : List Char → Option Nat
  conns : Nat → Option Conn
  queues : Nat → List LoopFunctor
  log : List LogEntry

namespace TcpServer

open World (Call Answers)

/-- A started server with `loops` I/O loops. -/
def new (listenAddr : InetAddress) (nameArg : List Char) (writeComplete : Bool) (loops : Nat) :
    TcpServer where
  name := nameArg
  ipPort := listenAddr.toIpPort
  writeCompleteCallback := writeComplete
  loops := loops
  next := 0
  nextConnId := 1
  connections := fun _ => none
  conns := fun _ => none
  queues := fun _ => []
  log := []

def queueInLoop (s : TcpServer) (l : Nat) (f : LoopFunctor) : TcpServer :=
  { s with queues := Function.update s.queues l (s.queues l ++ [f]) }

def record (s : TcpServer) (c l : Nat) (m : Moment) : TcpServer :=
  { s with log := s.log ++ [⟨c, l, m⟩] }

/-- `GetNextLoop()`, as the number of the loop. -/
def getNextLoop (s : TcpServer) : Nat := if s.loops = 0 then 0 else s.next + 1

/-- `next_` after `GetNextLoop()`. -/
def nextAfter (s : TcpServer) : Nat :=
  if s.loops = 0 then s.next else if s.loops ≤ s.next + 1 then 0 else s.next + 1

/-- `name_ + buf` for the connection with number `id`. -/
def connName (s : TcpServer) (id : Nat) : List Char :=
  s.name ++ snprintf 64 ('-' :: s.ipPort ++ '#' :: decimal id)

/-! ## Running connections -/

/-- What the connection has queued on its loop goes into that loop's queue. -/
def store (s : TcpServer) (c : Nat) (conn : Conn) (w : World) : TcpServer :=
  { s with
    conns := Function.update s.conns c (some { conn with world := { w with pending := [] } })
    queues := Function.update s.queues conn.loop
      (s.queues conn.loop ++ w.pending.map (.connection c)) }

/-- `RemoveConnectionInLoop`, running on loop `l`. -/
def removeConnectionInLoop (s : TcpServer) (l c : Nat) : TcpServer :=
  match s.conns c with
  | some conn =>
    { s.record c l .removeConnectionInLoop with
      connections := Function.update s.connections conn.name none }.queueInLoop conn.loop
      (.connectDestroyed c)
  | none => s

/-- `RemoveConnection`, called on loop `l`. -/
def removeConnection (s : TcpServer) (l c : Nat) : TcpServer :=
  if l = 0 then s.removeConnectionInLoop l c else s.queueInLoop 0 (.removeConnectionInLoop c)

/-- Running `f` of connection `c` on loop `l`. If it went through `HandleClose`, that
has called `close_callback_`, which is `RemoveConnection`. -/
def runConnection (s : TcpServer) (l c : Nat) (f : World → Except Fault World) :
    Except Fault TcpServer :=
  match s.conns c with
  | some conn => do
    let w ← f conn.world
    return if closeCalls conn.world.trace < closeCalls w.trace then
        ((s.store c conn w).record c l .handleClose).removeConnection l c
      else s.store c conn w
  | none => .error .outOfBounds

def connectEstablished (s : TcpServer) (l c : Nat) (onUp : List Call) : Except Fault TcpServer :=
  (s.record c l .connectEstablished).runConnection l c (·.connectEstablished onUp)

def connectDestroyed (s : TcpServer) (l c : Nat) (onDown : List Call) : Except Fault TcpServer :=
  (s.record c l .connectDestroyed).runConnection l c (·.connectDestroyed onDown)

def handleEvent (s : TcpServer) (l c : Nat) (revents : Events) (a : Answers) :
    Except Fault TcpServer :=
  (s.record c l .event).runConnection l c (·.handleEvent revents a)

def runFunctor (s : TcpServer) (l : Nat) (answer : WriteResult) (onRun : List Call) :
    LoopFunctor → Except Fault TcpServer
  | .connectEstablished c => s.connectEstablished l c onRun
  | .removeConnectionInLoop c => .ok (s.removeConnectionInLoop l c)
  | .connectDestroyed c => s.connectDestroyed l c onRun
  | .connection c f => s.runConnection l c (·.runFunctor answer onRun f)

/-! ## Accepting -/

/-- The connection object of `NewConnection`. In the poller of its loop only the
entries of its own descriptor matter to it, and a new descriptor has none. -/
def newConn (s : TcpServer) (addr : Nat) (sockfd : Int) : Conn where
  name := s.connName s.nextConnId
  loop := s.getNextLoop
  world := ⟨TcpConnection.new addr sockfd s.writeCompleteCallback false (64 * 1024 * 1024),
    ⟨fun _ => none, fun _ => none⟩, [], []⟩

/-- `NewConnection` up to the callbacks: the connection is in the table. -/
def enterConnection (s : TcpServer) (addr : Nat) (sockfd : Int) : TcpServer :=
  { s.record s.nextConnId 0 .newConnection with
    next := s.nextAfter
    nextConnId := s.nextConnId + 1
    connections := Function.update s.connections (s.connName s.nextConnId) (some s.nextConnId)
    conns := Function.update s.conns s.nextConnId (some (s.newConn addr sockfd)) }

/-- `NewConnection`; `onUp` are the calls of the user's callback if it runs at once. -/
def newConnection (s : TcpServer) (addr : Nat) (sockfd : Int) (onUp : List Call) :
    Except Fault TcpServer :=
  if s.getNextLoop = 0 then
    (s.enterConnection addr sockfd).connectEstablished 0 s.nextConnId onUp
  else .ok ((s.enterConnection addr sockfd).queueInLoop s.getNextLoop
    (.connectEstablished s.nextConnId))

end TcpServer

end RyanNetwork.Tcp
