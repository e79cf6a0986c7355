import RyanNetwork.Tcp.Lifetime
import RyanNetwork.Tcp.OtherPoller

/-!
# A server with one poller for each loop

`EventLoop` has one poller, which all connections of the loop use. Here the pollers belong to
the loops, and a connection works on the poller of its loop while it runs. A step of the
server of `Tcp.Server` and the same step here go on together as long as what runs on the
connection keeps the two worlds together.
-/
namespace RyanNetwork.Tcp.SharedPoller

open Lib Registration ServerView Table Lifetime OtherPoller
open Callbacks (Quiet call_closed calls_closed)
open World (Call Answers)

set_option autoImplicit false

/-! ## The server -/

/-- The connection with the poller `q`. -/
def setPoller (q : EpollPoller) (conn : Conn) : Conn :=
  { conn with world := { conn.world with poller := q } }

def emptyPoller : EpollPoller := ⟨fun _ => none, fun _ => none⟩

/-- The server without the pollers of its connections. -/
def bare (s : TcpServer) : TcpServer :=
  { s with conns := fun c => (s.conns c).map (setPoller emptyPoller) }

/-- A server and the pollers of its loops; its connections have none. -/
structure SharedServer where
  server : TcpServer
  pollers : Nat → EpollPoller

/-- The connection that a step runs for. -/
def actor (s : TcpServer) : ServerStep → Nat
  | .newConnection _ _ _ => s.nextConnId
  | .event c _ _ => c
  | .functor l _ _ =>
    match s.queues l with
    | f :: _ => LoopFunctor.conn f
    | [] => 0
  | .call c _ => c
  | .callFromOther c _ => c

def isNew : ServerStep → Bool
  | .newConnection _ _ _ => true
  | _ => false

/-- What a functor runs on its connection. -/
def functorTask (answer : WriteResult) (onRun : List Call) (w : World) :
    LoopFunctor → Except Fault World
  | .connectEstablished _ => w.connectEstablished onRun
  | .removeConnectionInLoop _ => .ok w
  | .connectDestroyed _ => w.connectDestroyed onRun
  | .connection _ g => w.runFunctor answer onRun g

/-- What a step runs on its connection. -/
def task (s : TcpServer) (w : World) : ServerStep → Except Fault World
  | .newConnection _ _ onUp => if s.getNextLoop = 0 then w.connectEstablished onUp else .ok w
  | .event _ revents a => w.handleEvent revents a
  | .functor l answer onRun =>
    match s.queues l with
    | f :: _ => functorTask answer onRun w f
    | [] => .ok w
  | .call _ call => w.call call
  | .callFromOther _ call => .ok (w.callFromOther call)

namespace SharedServer

/-- A started server; `own` are the pollers of its loops, with the loops' own channels. -/
def new (listenAddr : InetAddress) (nameArg : List Char) (writeComplete : Bool) (loops : Nat)
    (own : Nat → EpollPoller) : SharedServer :=
  ⟨TcpServer.new listenAddr nameArg writeComplete loops, own⟩

/-- The server while connection `c` runs: the connection works on the poller of its loop. -/
def lend (t : SharedServer) (c : Nat) : TcpServer :=
  { t.server with
    conns := Function.update t.server.conns c
      ((t.server.conns c).map fun conn => setPoller (t.pollers conn.loop) conn) }

/-- After connection `c` has run, the poller is the loop's again. -/
def takeBack (t : SharedServer) (c : Nat) (u : TcpServer) : SharedServer where
  server := bare u
  pollers :=
    match u.conns c with
    | some conn => Function.update t.pollers conn.loop conn.world.poller
    | none => t.pollers

/-- `NewConnection` up to the callbacks. -/
def enterConnection (t : SharedServer) (addr : Nat) (sockfd : Int) : SharedServer :=
  { t with server := t.server.enterConnection addr sockfd }

/-- The end of `NewConnection`: `RunInLoop` of `ConnectEstablished` on loop `l`. -/
def runEstablished (u : TcpServer) (l c : Nat) (onUp : List Call) : Except Fault TcpServer :=
  if l = 0 then u.connectEstablished 0 c onUp else .ok (u.queueInLoop l (.connectEstablished c))

def newConnection (t : SharedServer) (addr : Nat) (sockfd : Int) (onUp : List Call) :
    Except Fault SharedServer := do
  let c := t.server.nextConnId
  let t' := t.enterConnection addr sockfd
  let u ← runEstablished (t'.lend c) t.server.getNextLoop c onUp
  return t'.takeBack c u

def perform (t : SharedServer) : ServerStep → Except Fault SharedServer
  | .newConnection addr sockfd onUp => t.newConnection addr sockfd onUp
  | a => do
    let u ← Table.perform (t.lend (actor t.server a)) a
    return t.takeBack (actor t.server a) u

end SharedServer

/-! ## A connection that runs -/

/-- The server without pollers, but for connection `c`, which runs in the world `v`. -/
def lent (s : TcpServer) (c : Nat) (conn : Conn) (v : World) : TcpServer :=
  { s with conns := Function.update (bare s).conns c (some { conn with world := v }) }

/-- The two worlds differ in the poller alone, also once what waits was queued. -/
structure PollerApart (R : World → World → Prop) : Prop where
  rest : ∀ w v, R w v → ∃ q, v = { w with poller := q }
  queued : ∀ w v, R w v → R { w with pending := [] } { v with pending := [] }

/-- `u` is `s` while its connection `c` runs on another poller. -/
def Lent (R : World → World → Prop) (c : Nat) (conn : Conn) (s u : TcpServer) : Prop :=
  ∃ w v, R w v ∧ s.conns c = some { conn with world := w } ∧
    u = lent s c { conn with world := w } v

section Lent

variable {R : World → World → Prop} {s u : TcpServer} {c l : Nat} {conn : Conn}

theorem bare_update (s : TcpServer) (c : Nat) (x : Option Conn) :
    (fun d => (Function.update s.conns c x d).map (setPoller emptyPoller)) =
      Function.update (bare s).conns c (x.map (setPoller emptyPoller)) := by
  funext d
  by_cases hd : d = c
  · subst hd
    simp
  · simp [hd, bare]

theorem lent_store {w v : World} (v' : World) (hp : v'.pending = w.pending) :
    (lent s c conn v).store c { conn with world := v } v' =
      lent (s.store c conn w) c { conn with world := { w with pending := [] } }
        { v' with pending := [] } := by
  simp only [lent, TcpServer.store, bare_update, bare, Function.update_idem, hp]

theorem lent_removeConnectionInLoop {v : World} (hc : s.conns c = some conn) :
    (lent s c conn v).removeConnectionInLoop l c =
      lent (s.removeConnectionInLoop l c) c conn v := by
  have hu : (lent s c conn v).conns c = some { conn with world := v } := Function.update_self ..
  unfold TcpServer.removeConnectionInLoop
  rw [hc, hu]
  rfl

theorem lent_removeConnection {v : World} (hc : s.conns c = some conn) :
    (lent s c conn v).removeConnection l c = lent (s.removeConnection l c) c conn v := by
  unfold TcpServer.removeConnection
  split
  · exact lent_removeConnectionInLoop hc
  · rfl

theorem removeConnectionInLoop_conns (s : TcpServer) (l c : Nat) :
    (s.removeConnectionInLoop l c).conns = s.conns := by
  unfold TcpServer.removeConnectionInLoop
  split
  · rfl
  · rfl

/-- Whatever leaves the connections alone and asks for none of their worlds. -/
theorem Lent.map (h : Lent R c conn s u) (g : TcpServer → TcpServer)
    (hg : ∀ conn v, s.conns c = some conn → g (lent s c conn v) = lent (g s) c conn v)
    (hc : (g s).conns = s.conns) : Lent R c conn (g s) (g u) := by
  obtain ⟨w, v, hr, hs, rfl⟩ := h
  exact ⟨w, v, hr, hc ▸ hs, hg _ v hs⟩

/-- Storing what the connection has become in its two worlds. -/
theorem lent_stored (hR : PollerApart R) {w w' v v' : World} (hr : R w' v') :
    Lent R c conn (s.store c { conn with world := w } w')
      ((lent s c { conn with world := w } v).store c { conn with world := v } v') := by
  obtain ⟨q, hv⟩ := hR.rest w' v' hr
  exact ⟨_, _, hR.queued w' v' hr, Function.update_self .., lent_store v' (by rw [hv])⟩

theorem lent_runConnection (hR : PollerApart R) {f : World → Except Fault World}
    (hf : ∀ w v, R w v → Lockstep R (f w) (f v)) (h : Lent R c conn s u) :
    Lockstep (Lent R c conn) (s.runConnection l c f) (u.runConnection l c f) := by
  obtain ⟨w, v, hr, hs, rfl⟩ := h
  have hu : (lent s c { conn with world := w } v).conns c = some { conn with world := v } :=
    Function.update_self ..
  unfold TcpServer.runConnection
  rw [hs, hu]
  refine (hf w v hr).bind fun w' v' hr' => .ok ?_
  have hst : Lent R c conn (s.store c { conn with world := w } w')
      ((lent s c { conn with world := w } v).store c { conn with world := v } v') :=
    lent_stored hR hr'
  have htrace : v.trace = w.trace := by
    obtain ⟨q, rfl⟩ := hR.rest w v hr
    rfl
  have htrace' : v'.trace = w'.trace := by
    obtain ⟨q, rfl⟩ := hR.rest w' v' hr'
    rfl
  dsimp only
  rw [htrace, htrace']
  split
  · have hrec := hst.map (·.record c l .handleClose) (fun _ _ _ => rfl) rfl
    refine hrec.map (·.removeConnection l c) (fun _ _ hc => lent_removeConnection hc) ?_
    exact (removeConnection_keeps _ c l).1
  · exact hst

/-- A step of the server, where what it runs on its connection keeps the two worlds together. -/
theorem lent_perform (hR : PollerApart R) {a : ServerStep} (ha : actor s a = c)
    (hnew : isNew a = false)
    (hf : ∀ w v, R w v → Lockstep R (task s w a) (task s v a)) (h : Lent R c conn s u) :
    Lockstep (Lent R c conn) (perform s a) (perform u a) := by
  obtain ⟨w, v, hr, hs, hu⟩ := id h
  have huc : u.conns c = some { conn with world := v } := by
    rw [hu]
    exact Function.update_self ..
  cases a with
  | newConnection addr sockfd onUp => cases hnew
  | event d revents b =>
    change d = c at ha
    subst ha
    simp only [perform, hs, huc]
    exact lent_runConnection hR hf (h.map (·.record d conn.loop .event) (fun _ _ _ => rfl) rfl)
  | functor l answer onRun =>
    have hqu : u.queues = s.queues := by rw [hu]; rfl
    simp only [perform, hqu]
    simp only [actor, task] at ha hf
    cases hq : s.queues l with
    | nil => exact .error _
    | cons f rest =>
      rw [hq] at ha hf
      have hpop : Lent R c conn (pop s l rest) (pop u l rest) :=
        h.map (pop · l rest) (fun _ _ _ => rfl) rfl
      cases f with
      | connectEstablished d =>
        change d = c at ha
        subst ha
        exact lent_runConnection hR hf
          (hpop.map (·.record d l .connectEstablished) (fun _ _ _ => rfl) rfl)
      | removeConnectionInLoop d =>
        change d = c at ha
        subst ha
        exact .ok (hpop.map (·.removeConnectionInLoop l d)
          (fun _ _ hc => lent_removeConnectionInLoop hc) (removeConnectionInLoop_conns _ l d))
      | connectDestroyed d =>
        change d = c at ha
        subst ha
        exact lent_runConnection hR hf
          (hpop.map (·.record d l .connectDestroyed) (fun _ _ _ => rfl) rfl)
      | connection d g =>
        change d = c at ha
        subst ha
        exact lent_runConnection hR hf hpop
  | call d call =>
    change d = c at ha
    subst ha
    simp only [perform, hs, huc]
    exact lent_runConnection hR hf h
  | callFromOther d call =>
    change d = c at ha
    subst ha
    simp only [perform, hs, huc]
    have hstep : Lockstep R (.ok (w.callFromOther call)) (.ok (v.callFromOther call)) := hf w v hr
    rw [hu]
    cases hstep with
    | ok hr' => exact .ok (lent_stored hR hr')

end Lent

/-! ## A connection with its channel, and one without -/

section Tasks

variable {addr : Nat} {fd : Int} {p : EpollPoller} {k : TcpConnection} {w v : World}

theorem alongside_apart (addr : Nat) (fd : Int) (p : EpollPoller) :
    PollerApart (Alongside addr fd p) := by
  refine ⟨?_, ?_⟩
  · rintro w v ⟨q, hv, -⟩
    exact ⟨q, hv⟩
  · intro w v h
    exact h.map (fun w => { w with pending := [] }) (fun _ _ => rfl) (fun _ => rfl) fun _ => rfl

theorem alongside_task (s : TcpServer) (a : ServerStep) (h : Alongside addr fd p w v) :
    Lockstep (Alongside addr fd p) (task s w a) (task s v a) := by
  cases a with
  | newConnection addr' sockfd onUp =>
    exact .ite (fun _ => alongside_connectEstablished onUp h) fun _ => .ok h
  | event c revents b => exact alongside_handleEvent revents b h
  | functor l answer onRun =>
    simp only [task]
    cases s.queues l with
    | nil => exact .ok h
    | cons f rest =>
      cases f with
      | connectEstablished c => exact alongside_connectEstablished onRun h
      | removeConnectionInLoop c => exact .ok h
      | connectDestroyed c => exact alongside_connectDestroyed onRun h
      | connection c g => exact alongside_runFunctor answer onRun g h
  | call c call => exact alongside_call call h
  | callFromOther c call => exact .ok (alongside_callFromOther call h)

/-- A connection that nothing changes any more, on the poller `p`. -/
def Still (p : EpollPoller) (k : TcpConnection) (w v : World) : Prop :=
  v = { w with poller := p } ∧ w.conn = k

theorem still_apart (p : EpollPoller) (k : TcpConnection) : PollerApart (Still p k) := by
  refine ⟨fun w v h => ⟨p, h.1⟩, ?_⟩
  rintro w v ⟨rfl, hk⟩
  exact ⟨rfl, hk⟩

theorem still_call {c : Call} (hs : w.conn.state = .kDisconnected)
    (he : w.conn.channel.events = Events.kNoneEvent) (hq : Quiet w [c]) (h : Still p k w v) :
    Lockstep (Still p k) (w.call c) (v.call c) := by
  obtain ⟨rfl, hk⟩ := h
  have hv : World.call { w with poller := p } c = .ok { w with poller := p } :=
    call_closed hs he hq
  rw [call_closed hs he hq, hv]
  exact .ok ⟨rfl, hk⟩

/-- On a closed connection a functor does nothing, or half-closes the socket once more. -/
theorem runFunctor_idle {answer : WriteResult} {onRun : List Call} {f : PendingFunctor}
    (hs : w.conn.state = .kDisconnected) (he : w.conn.channel.events = Events.kNoneEvent)
    (hc : Careful w onRun f) :
    w.runFunctor answer onRun f = .ok (if f = .shutdownInLoop then w.shutdownInLoop else w) := by
  cases f with
  | sendInLoop message => simp [World.runFunctor, World.sendInLoop, hs]
  | shutdownInLoop => rfl
  | forceCloseInLoop => simp [World.runFunctor, World.forceCloseInLoop, World.isOpen, hs]
  | startReadInLoop => exact absurd hs hc
  | stopReadInLoop =>
    have hq : Quiet w [.stopRead] := ⟨by simp, by simp [hc hs]⟩
    exact call_closed hs he hq
  | writeComplete => exact calls_closed hs he (hc hs)
  | highWatermark len => exact calls_closed hs he (hc hs)

/-- `Careful` asks about the poller only where the connection is open. -/
theorem careful_twin {onRun : List Call} {g : PendingFunctor} (h : v.conn = w.conn)
    (hw : w.isOpen = true → Watched w → Watched v) (hc : Careful w onRun g) :
    Careful v onRun g := by
  have hopen : v.isOpen = w.isOpen := by simp [World.isOpen, h]
  cases g with
  | forceCloseInLoop =>
    intro ho
    obtain ⟨hwatch, hq⟩ := hc (hopen ▸ ho)
    refine ⟨hw (hopen ▸ ho) hwatch, ?_⟩
    simpa [Quiet, h] using hq
  | sendInLoop message => exact trivial
  | shutdownInLoop => exact trivial
  | startReadInLoop => simpa [Careful, h] using hc
  | stopReadInLoop => simpa [Careful, h] using hc
  | writeComplete => simpa [Careful, Quiet, h] using hc
  | highWatermark len => simpa [Careful, Quiet, h] using hc

theorem careful_of_conn {onRun : List Call} {f : PendingFunctor} (h : v.conn = w.conn)
    (hs : w.conn.state = .kDisconnected) (hc : Careful w onRun f) : Careful v onRun f := by
  refine careful_twin h (fun ho => ?_) hc
  simp [World.isOpen, hs] at ho

theorem still_runFunctor {answer : WriteResult} {onRun : List Call} {f : PendingFunctor}
    (hs : w.conn.state = .kDisconnected) (he : w.conn.channel.events = Events.kNoneEvent)
    (hc : Careful w onRun f) (h : Still p k w v) :
    Lockstep (Still p k) (w.runFunctor answer onRun f) (v.runFunctor answer onRun f) := by
  obtain ⟨rfl, hk⟩ := h
  have hv : World.runFunctor { w with poller := p } answer onRun f = .ok
      (if f = .shutdownInLoop then World.shutdownInLoop { w with poller := p }
        else { w with poller := p }) := runFunctor_idle hs he (careful_of_conn (w := w) rfl hs hc)
  rw [runFunctor_idle hs he hc, hv]
  refine .ok ?_
  split
  · unfold World.shutdownInLoop
    split
    · exact ⟨rfl, hk⟩
    · exact ⟨rfl, hk⟩
  · exact ⟨rfl, hk⟩

theorem still_callFromOther (c : Call) (hs : w.conn.state = .kDisconnected) (h : Still p k w v) :
    Still p k (w.callFromOther c) (v.callFromOther c) := by
  obtain ⟨rfl, rfl⟩ := h
  cases c with
  | send data answer => simp [Still, World.callFromOther, hs]
  | shutdown => simp [Still, World.callFromOther, hs]
  | forceClose => simp [Still, World.callFromOther, World.isOpen, hs]
  | startRead => exact ⟨rfl, rfl⟩
  | stopRead => exact ⟨rfl, rfl⟩

end Tasks

end RyanNetwork.Tcp.SharedPoller
