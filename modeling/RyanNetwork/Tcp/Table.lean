import RyanNetwork.Tcp.Registration
import RyanNetwork.Tcp.ServerView

/-!
# The connection table of a server

Establishing, closing and destroying a connection hop between the queues of the
base loop and of its I/O loop. For each connection at most one of the three
functors waits at any time, and which one tells how far the connection is: that is
the invariant of its view of the server.

A read switch on a closed connection puts its channel back into the poller, so
events come after `HandleClose` again; without one the order is kept.
-/
namespace RyanNetwork.Tcp.Table

open Lib Callbacks Registration ServerView
open World (Call Answers)
open TcpServer (connName)

set_option autoImplicit false

/-! ## The stages of one connection -/

/-- The functors of `waiting` that stand in the queue of loop `l`. -/
def waitingIn (waiting : Option (Nat × LoopFunctor)) (l : Nat) : List LoopFunctor :=
  match waiting with
  | none => []
  | some (k, f) => if l = k then [f] else []

/-- The loop that a moment of a connection on loop `l` belongs to. -/
def home (l : Nat) : Moment → Nat
  | .newConnection => 0
  | .removeConnectionInLoop => 0
  | _ => l

/-- The connection exists, at most one functor of the protocol waits for it, its
other functors wait only on its own loop and after it was established, and the
table and the log say of it what `inTable` and `moments` do. -/
structure Tracked (s : TcpServer) (c : Nat) (conn : Conn) (waiting : Option (Nat × LoopFunctor))
    (inTable : Bool) (moments : List Moment) : Prop where
  created : s.conns c = some conn
  waits : ∀ l, ((view s c).queue l).filter LoopFunctor.isProtocol = waitingIn waiting l
  own : ∀ l g, .connection c g ∈ (view s c).queue l →
    .connectEstablished ∈ moments ∧ l = conn.loop
  entry : (view s c).entry = if inTable then some c else none
  history : history s c = moments
  place : ∀ e ∈ (view s c).log, e.loop = home conn.loop e.moment

section Tracked

variable {s : TcpServer} {c l : Nat} {conn : Conn} {waiting : Option (Nat × LoopFunctor)}
  {inTable : Bool} {moments : List Moment}

theorem Tracked.record {m : Moment} (h : Tracked s c conn waiting inTable moments)
    (hl : l = home conn.loop m) :
    Tracked (s.record c l m) c conn waiting inTable (moments ++ [m]) := by
  have hlog : (view (s.record c l m) c).log = (view s c).log ++ [⟨c, l, m⟩] := by
    simp [view, TcpServer.record]
  refine ⟨h.created, h.waits, ?_, h.entry, ?_, ?_⟩
  · intro k g hg
    exact ⟨List.mem_append_left _ (h.own k g hg).1, (h.own k g hg).2⟩
  · rw [ServerView.history, hlog, List.map_append]
    exact congrArg (· ++ [m]) h.history
  · rw [hlog]
    intro e he
    rcases List.mem_append.mp he with he | he
    · exact h.place e he
    · rw [List.mem_singleton.mp he]
      exact hl

theorem queue_queueInLoop (s : TcpServer) {f : LoopFunctor} (hf : LoopFunctor.conn f = c) (k : Nat) :
    (view (s.queueInLoop l f) c).queue k = (view s c).queue k ++ if k = l then [f] else [] := by
  by_cases hk : k = l
  · subst hk
    simp [view, TcpServer.queueInLoop, hf]
  · simp [view, TcpServer.queueInLoop, hk]

theorem Tracked.queueInLoop {f : LoopFunctor} (h : Tracked s c conn none inTable moments)
    (hf : LoopFunctor.conn f = c) (hp : LoopFunctor.isProtocol f = true) :
    Tracked (s.queueInLoop l f) c conn (some (l, f)) inTable moments := by
  refine ⟨h.created, ?_, ?_, h.entry, h.history, h.place⟩
  · intro k
    rw [queue_queueInLoop s hf, List.filter_append, h.waits k]
    by_cases hk : k = l
    · simp [waitingIn, hk, hp]
    · simp [waitingIn, hk]
  · intro k g hg
    rw [queue_queueInLoop s hf] at hg
    rcases List.mem_append.mp hg with hg | hg
    · exact h.own k g hg
    · split at hg
      · rw [← List.mem_singleton.mp hg] at hp
        cases hp
      · cases hg

theorem queue_store (s : TcpServer) (w : World) (k : Nat) :
    (view (s.store c conn w) c).queue k =
      (view s c).queue k ++ if k = conn.loop then w.pending.map (.connection c) else [] := by
  have hall : (w.pending.map (LoopFunctor.connection c)).filter
      (fun f => LoopFunctor.conn f = c) = w.pending.map (LoopFunctor.connection c) := by
    rw [List.filter_eq_self]
    intro f hf
    obtain ⟨g, -, rfl⟩ := List.mem_map.mp hf
    simp [LoopFunctor.conn]
  by_cases hk : k = conn.loop
  · subst hk
    simp [view, TcpServer.store, hall]
  · simp [view, TcpServer.store, hk]

theorem Tracked.store {w : World} (h : Tracked s c conn waiting inTable moments)
    (hm : .connectEstablished ∈ moments) :
    Tracked (s.store c conn w) c { conn with world := { w with pending := [] } } waiting inTable
      moments := by
  refine ⟨Function.update_self .., ?_, ?_, ?_, h.history, h.place⟩
  · intro k
    have hnone : (w.pending.map (LoopFunctor.connection c)).filter LoopFunctor.isProtocol = [] := by
      rw [List.filter_eq_nil_iff]
      intro f hf
      obtain ⟨g, -, rfl⟩ := List.mem_map.mp hf
      simp [LoopFunctor.isProtocol]
    rw [queue_store, List.filter_append, h.waits k]
    split
    · rw [hnone, List.append_nil]
    · rw [List.filter_nil, List.append_nil]
  · intro k g hg
    rw [queue_store] at hg
    rcases List.mem_append.mp hg with hg | hg
    · exact h.own k g hg
    · split at hg
      · exact ⟨hm, ‹_›⟩
      · cases hg
  · have he := h.entry
    simp only [view, h.created] at he
    simpa [view, TcpServer.store] using he

theorem Tracked.erase (h : Tracked s c conn waiting inTable moments) :
    Tracked (erase s conn.name) c conn waiting false moments := by
  refine ⟨h.created, h.waits, h.own, ?_, h.history, h.place⟩
  simp [view, ServerView.erase, h.created]

theorem queue_pop {f : LoopFunctor} {rest : List LoopFunctor} (hq : s.queues l = f :: rest)
    (hf : LoopFunctor.conn f = c) :
    (view s c).queue l = f :: (view (pop s l rest) c).queue l ∧
      ∀ k, k ≠ l → (view (pop s l rest) c).queue k = (view s c).queue k := by
  refine ⟨?_, fun k hk => ?_⟩
  · simp [view, pop, hq, hf]
  · simp [view, pop, hk]

/-- Taking a functor of the protocol: it is the one that waits. -/
theorem Tracked.popProtocol {f : LoopFunctor} {rest : List LoopFunctor}
    (h : Tracked s c conn waiting inTable moments) (hq : s.queues l = f :: rest)
    (hf : LoopFunctor.conn f = c) (hp : LoopFunctor.isProtocol f = true) :
    waiting = some (l, f) ∧ Tracked (pop s l rest) c conn none inTable moments := by
  obtain ⟨hhead, hother⟩ := queue_pop hq hf
  have hwl := h.waits l
  rw [hhead, List.filter_cons_of_pos hp] at hwl
  obtain ⟨hw, hrest⟩ : waiting = some (l, f) ∧
      ((view (pop s l rest) c).queue l).filter LoopFunctor.isProtocol = [] := by
    cases waiting with
    | none => cases hwl
    | some kf =>
      obtain ⟨k, g⟩ := kf
      simp only [waitingIn] at hwl
      split at hwl
      · rename_i hk
        obtain ⟨rfl, hnil⟩ := List.cons.inj hwl
        exact ⟨by rw [hk], hnil⟩
      · cases hwl
  refine ⟨hw, h.created, ?_, ?_, h.entry, h.history, h.place⟩
  · intro k
    by_cases hk : k = l
    · rw [hk, hrest]
      rfl
    · rw [hother k hk, h.waits k, hw]
      simp [waitingIn, hk]
  · intro k g hg
    by_cases hk : k = l
    · subst hk
      exact h.own k g (hhead ▸ List.mem_cons_of_mem _ hg)
    · exact h.own k g (hother k hk ▸ hg)

/-- Taking a functor of the connection's own. -/
theorem Tracked.popOwn {g : PendingFunctor} {rest : List LoopFunctor}
    (h : Tracked s c conn waiting inTable moments) (hq : s.queues l = .connection c g :: rest) :
    .connectEstablished ∈ moments ∧ l = conn.loop ∧
      Tracked (pop s l rest) c conn waiting inTable moments := by
  obtain ⟨hhead, hother⟩ := queue_pop hq (c := c) rfl
  obtain ⟨hm, hl⟩ := h.own l g (hhead ▸ List.mem_cons_self)
  refine ⟨hm, hl, h.created, ?_, ?_, h.entry, h.history, h.place⟩
  · intro k
    by_cases hk : k = l
    · have hwl := h.waits l
      rw [hhead, List.filter_cons_of_neg (by simp [LoopFunctor.isProtocol])] at hwl
      rw [hk]
      exact hwl
    · rw [hother k hk]
      exact h.waits k
  · intro k g' hg
    by_cases hk : k = l
    · subst hk
      exact h.own k g' (hhead ▸ List.mem_cons_of_mem _ hg)
    · exact h.own k g' (hother k hk ▸ hg)

end Tracked

theorem Tracked.of_view {s s' : TcpServer} {c : Nat} {conn : Conn}
    {waiting : Option (Nat × LoopFunctor)} {inTable : Bool} {moments : List Moment}
    (hv : view s' c = view s c) (h : Tracked s c conn waiting inTable moments) :
    Tracked s' c conn waiting inTable moments := by
  have hconn : s'.conns c = s.conns c := congrArg View.conn hv
  refine ⟨hconn.trans h.created, ?_, ?_, ?_, ?_, ?_⟩
  · rw [hv]
    exact h.waits
  · rw [hv]
    exact h.own
  · rw [hv]
    exact h.entry
  · rw [ServerView.history, hv]
    exact h.history
  · rw [hv]
    exact h.place

inductive Stage where
  | created
  | up
  | closed
  | erased
  | gone

namespace Stage

def waiting (c loop : Nat) : Stage → Option (Nat × LoopFunctor)
  | created => some (loop, .connectEstablished c)
  | up => none
  | closed => some (0, .removeConnectionInLoop c)
  | erased => some (loop, .connectDestroyed c)
  | gone => none

def inTable : Stage → Bool
  | created => true
  | up => true
  | closed => true
  | erased => false
  | gone => false

/-- What runs for a connection that serves `n` events. -/
def served (n : Nat) : List Moment :=
  [.newConnection, .connectEstablished] ++ List.replicate n .event

/-- What has run for a connection with `n` events so far. -/
def moments (n : Nat) : Stage → List Moment
  | created => [.newConnection]
  | up => served n
  | closed => served n ++ [.handleClose]
  | erased => served n ++ [.handleClose] ++ [.removeConnectionInLoop]
  | gone => served n ++ [.handleClose] ++ [.removeConnectionInLoop] ++ [.connectDestroyed]

def Holds : Stage → World → Prop
  | created => fun w => w.conn.state = .kConnecting ∧ ¬Watched w ∧ closeCalls w.trace = 0
  | up => Open
  | _ => Shut

theorem established_mem {stage : Stage} (n : Nat) (h : stage ≠ created) :
    .connectEstablished ∈ stage.moments n := by
  cases stage with
  | created => exact absurd rfl h
  | up => simp [moments, served]
  | closed => simp [moments, served]
  | erased => simp [moments, served]
  | gone => simp [moments, served]

theorem served_event (n : Nat) : served n ++ [.event] = served (n + 1) := by
  rw [served, List.append_assoc, ← List.replicate_succ']
  rfl

end Stage

/-- Between two steps of the server, connection `c` is at `stage` after `n` events. -/
structure At (s : TcpServer) (c : Nat) (conn : Conn) (stage : Stage) (n : Nat) : Prop where
  tracked : Tracked s c conn (stage.waiting c conn.loop) stage.inTable (stage.moments n)
  holds : stage.Holds conn.world

/-- No connection has the number yet. -/
structure Blank (s : TcpServer) (c : Nat) : Prop where
  absent : s.conns c = none
  unqueued : ∀ l, (view s c).queue l = []
  unlogged : (view s c).log = []

def Good (s : TcpServer) (c : Nat) : Prop := Blank s c ∨ ∃ conn stage n, At s c conn stage n

theorem good_of_view {s s' : TcpServer} {c : Nat} (hv : view s' c = view s c) (h : Good s c) :
    Good s' c := by
  rcases h with hb | ⟨conn, stage, n, ha⟩
  · have hconn : s'.conns c = s.conns c := congrArg View.conn hv
    refine Or.inl ⟨hconn.trans hb.absent, ?_, ?_⟩
    · rw [hv]
      exact hb.unqueued
    · rw [hv]
      exact hb.unlogged
  · exact Or.inr ⟨conn, stage, n, ha.tracked.of_view hv, ha.holds⟩

section Stages

variable {s s' : TcpServer} {c l n : Nat} {conn : Conn}

theorem runConnection_ok {f : World → Except Fault World} (hc : s.conns c = some conn)
    (h : s.runConnection l c f = .ok s') :
    ∃ w, f conn.world = .ok w ∧ s' = if closeCalls conn.world.trace < closeCalls w.trace then
        ((s.store c conn w).record c l .handleClose).removeConnection l c
      else s.store c conn w := by
  unfold TcpServer.runConnection at h
  rw [hc] at h
  obtain ⟨w, hw, h⟩ := bind_ok h
  cases h
  exact ⟨w, hw, rfl⟩

theorem removeConnectionInLoop_erased (hs : Shut conn.world)
    (h : Tracked s c conn none true (Stage.closed.moments n)) :
    At (s.removeConnectionInLoop 0 c) c conn .erased n := by
  refine ⟨?_, hs⟩
  unfold TcpServer.removeConnectionInLoop
  rw [h.created]
  have hr : Tracked (s.record c 0 .removeConnectionInLoop) c conn none true
      (Stage.erased.moments n) := h.record rfl
  exact hr.erase.queueInLoop rfl rfl

/-- `HandleClose` on the connection's loop: the base loop erases the entry at once,
another loop has it erased by the base loop. -/
theorem removeConnection_stage (h : Tracked s c conn none true (Stage.up.moments n))
    (hs : Shut conn.world) :
    ∃ stage, At ((s.record c conn.loop .handleClose).removeConnection conn.loop c) c conn stage n := by
  have hr : Tracked (s.record c conn.loop .handleClose) c conn none true
      (Stage.closed.moments n) := h.record rfl
  unfold TcpServer.removeConnection
  split
  · rename_i hl
    rw [hl] at hr ⊢
    exact ⟨.erased, removeConnectionInLoop_erased hs hr⟩
  · exact ⟨.closed, hr.queueInLoop rfl rfl, hs⟩

theorem runConnection_up {f : World → Except Fault World} (hz : closeCalls conn.world.trace = 0)
    (hf : ∀ w, f conn.world = .ok w → Open w ∨ Shut w)
    (ht : Tracked s c conn none true (Stage.up.moments n))
    (h : s.runConnection conn.loop c f = .ok s') : ∃ conn' stage, At s' c conn' stage n := by
  obtain ⟨w, hw, rfl⟩ := runConnection_ok ht.created h
  have hst := ht.store (w := w) (Stage.established_mem n (by simp))
  rw [hz]
  rcases hf w hw with ho | hs
  · rw [ho.closes, if_neg (by simp)]
    exact ⟨_, .up, hst, ho.isOpen, ho.linked, ho.closes⟩
  · rw [hs.closes, if_pos (by simp)]
    have hw' : Shut { w with pending := [] } :=
      ⟨hs.closed, hs.noEvent, hs.unwatched, hs.closes⟩
    have hrem := removeConnection_stage hst hw'
    exact ⟨_, hrem⟩

theorem runConnection_shut {f : World → Except Fault World} (stage : Stage)
    (hst : stage ≠ .created) (hh : stage.Holds = Shut) (hs : Shut conn.world)
    (hf : ∀ w, f conn.world = .ok w → Shut w)
    (ht : Tracked s c conn (stage.waiting c conn.loop) stage.inTable (stage.moments n))
    (h : s.runConnection l c f = .ok s') : ∃ conn', At s' c conn' stage n := by
  obtain ⟨w, hw, rfl⟩ := runConnection_ok ht.created h
  have hs' := hf w hw
  rw [hs.closes, hs'.closes, if_neg (by simp)]
  refine ⟨_, ht.store (Stage.established_mem n hst), ?_⟩
  rw [hh]
  exact ⟨hs'.closed, hs'.noEvent, hs'.unwatched, hs'.closes⟩

/-- A step of the connection that keeps its phase keeps or advances its stage. -/
theorem runConnection_stage {f : World → Except Fault World} {stage : Stage}
    (hst : stage ≠ .created) (ho : Open conn.world → ∀ w, f conn.world = .ok w → Open w ∨ Shut w)
    (hs : Shut conn.world → ∀ w, f conn.world = .ok w → Shut w) (ha : At s c conn stage n)
    (h : s.runConnection conn.loop c f = .ok s') : ∃ conn' stage', At s' c conn' stage' n := by
  have hshut (hh : stage.Holds = Shut) : ∃ conn' stage', At s' c conn' stage' n := by
    have hw : Shut conn.world := hh ▸ ha.holds
    obtain ⟨conn', ha'⟩ := runConnection_shut stage hst hh hw (hs hw) ha.tracked h
    exact ⟨conn', stage, ha'⟩
  cases stage with
  | created => exact absurd rfl hst
  | up => exact runConnection_up ha.holds.closes (ho ha.holds) ha.tracked h
  | closed => exact hshut rfl
  | erased => exact hshut rfl
  | gone => exact hshut rfl

theorem connectEstablished_stage {onUp : List Call} (hz : closeCalls conn.world.trace = 0)
    (ht : Tracked s c conn none true [.newConnection])
    (h : s.connectEstablished conn.loop c onUp = .ok s') :
    ∃ conn' stage, At s' c conn' stage 0 := by
  have hr : Tracked (s.record c conn.loop .connectEstablished) c conn none true
      (Stage.up.moments 0) := ht.record rfl
  exact runConnection_up hz (fun w hw => Or.inl (connectEstablished_open hz hw)) hr h

theorem connectDestroyed_stage {onDown : List Call} (hs : Shut conn.world)
    (ht : Tracked s c conn none false (Stage.erased.moments n))
    (h : s.connectDestroyed conn.loop c onDown = .ok s') :
    ∃ conn' stage, At s' c conn' stage n := by
  have hr : Tracked (s.record c conn.loop .connectDestroyed) c conn none false
      (Stage.gone.moments n) := ht.record rfl
  obtain ⟨conn', ha⟩ := runConnection_shut .gone (by simp) rfl hs
    (fun w hw => connectDestroyed_shut hs hw) hr h
  exact ⟨conn', .gone, ha⟩

/-- Only a connection that is up is watched. -/
theorem handleEvent_stage {stage : Stage} {revents : Events} {a : Answers}
    (ha : At s c conn stage n) (hw : Watched conn.world)
    (hc : CarefulEvent conn.world revents a)
    (h : s.handleEvent conn.loop c revents a = .ok s') :
    ∃ conn' stage', At s' c conn' stage' (n + 1) := by
  cases stage with
  | created => exact absurd hw ha.holds.2.1
  | up =>
    have hr : Tracked (s.record c conn.loop .event) c conn none true
        (Stage.served n ++ [.event]) := ha.tracked.record rfl
    rw [Stage.served_event] at hr
    exact runConnection_up ha.holds.closes
      (fun w he => (handleEvent_open ha.holds hw hc he).imp_right (·.toShut)) hr h
  | closed => exact absurd hw ha.holds.unwatched
  | erased => exact absurd hw ha.holds.unwatched
  | gone => exact absurd hw ha.holds.unwatched

theorem waiting_inj {stage : Stage} {f : LoopFunctor}
    (h : stage.waiting c conn.loop = some (l, f)) :
    (stage = .created ∧ l = conn.loop ∧ f = .connectEstablished c) ∨
    (stage = .closed ∧ l = 0 ∧ f = .removeConnectionInLoop c) ∨
    (stage = .erased ∧ l = conn.loop ∧ f = .connectDestroyed c) := by
  cases stage with
  | created =>
    cases h
    exact Or.inl ⟨rfl, rfl, rfl⟩
  | up => cases h
  | closed =>
    cases h
    exact Or.inr (Or.inl ⟨rfl, rfl, rfl⟩)
  | erased =>
    cases h
    exact Or.inr (Or.inr ⟨rfl, rfl, rfl⟩)
  | gone => cases h

end Stages

/-! ## Steps of the server -/

/-- What can happen to a running server. Calls of the user go to a connection from
its own loop or from another thread. -/
inductive ServerStep where
  | newConnection (addr : Nat) (sockfd : Int) (onUp : List Call)
  | event (c : Nat) (revents : Events) (a : Answers)
  | functor (l : Nat) (answer : WriteResult) (onRun : List Call)
  | call (c : Nat) (call : Call)
  | callFromOther (c : Nat) (call : Call)

/-- A channel gets events only while it is watched, a loop runs a functor only if
its queue has one, and the user first sees a connection when it is established. -/
def Enabled (s : TcpServer) : ServerStep → Prop
  | .newConnection _ _ _ => s.nextConnId < 2 ^ 31
  | .event c _ _ => ∃ conn ∈ s.conns c, Watched conn.world
  | .functor l _ _ => s.queues l ≠ []
  | .call c _ => ∃ conn ∈ s.conns c, conn.world.conn.state ≠ .kConnecting
  | .callFromOther c _ => ∃ conn ∈ s.conns c, conn.world.conn.state ≠ .kConnecting

instance (s : TcpServer) : DecidablePred (Enabled s)
  | .newConnection _ _ _ => inferInstanceAs (Decidable (_ < _))
  | .event c _ _ => Option.decidableExistsMem (s.conns c)
  | .functor _ _ _ => inferInstanceAs (Decidable (_ ≠ _))
  | .call c _ => Option.decidableExistsMem (s.conns c)
  | .callFromOther c _ => Option.decidableExistsMem (s.conns c)

/-- Calls and events run on the loop of their connection; a loop takes the first
functor of its queue. -/
def perform (s : TcpServer) : ServerStep → Except Fault TcpServer
  | .newConnection addr sockfd onUp => s.newConnection addr sockfd onUp
  | .event c revents a =>
    match s.conns c with
    | some conn => s.handleEvent conn.loop c revents a
    | none => .error .outOfBounds
  | .functor l answer onRun =>
    match s.queues l with
    | f :: rest => (pop s l rest).runFunctor l answer onRun f
    | [] => .error .outOfBounds
  | .call c call =>
    match s.conns c with
    | some conn => s.runConnection conn.loop c (·.call call)
    | none => .error .outOfBounds
  | .callFromOther c call =>
    match s.conns c with
    | some conn => .ok (s.store c conn (conn.world.callFromOther call))
    | none => .error .outOfBounds

def Step (s : TcpServer) (a : ServerStep) (s' : TcpServer) : Prop :=
  Enabled s a ∧ perform s a = .ok s'

/-- What a functor must leave alone for `LeavesClosed`. -/
def CarefulFunctor (s : TcpServer) (onRun : List Call) : LoopFunctor → Prop
  | .connection c f => ∀ conn ∈ s.conns c, Careful conn.world onRun f
  | _ => True

/-- The step does not put the channel of a closed connection back into the poller. -/
def LeavesClosed (s : TcpServer) : ServerStep → Prop
  | .event c revents a => ∀ conn ∈ s.conns c, CarefulEvent conn.world revents a
  | .functor l _ onRun => ∀ f ∈ (s.queues l).head?, CarefulFunctor s onRun f
  | .call c call => ∀ conn ∈ s.conns c, conn.world.conn.state = .kDisconnected →
      Quiet conn.world [call]
  | .newConnection _ _ _ => True
  | .callFromOther _ _ => True

instance (s : TcpServer) (onRun : List Call) : DecidablePred (CarefulFunctor s onRun)
  | .connection c _ => Option.decidableForallMem (s.conns c)
  | .connectEstablished _ => isTrue trivial
  | .removeConnectionInLoop _ => isTrue trivial
  | .connectDestroyed _ => isTrue trivial

instance (s : TcpServer) : DecidablePred (LeavesClosed s)
  | .event c _ _ => Option.decidableForallMem (s.conns c)
  | .functor l _ _ => Option.decidableForallMem (s.queues l).head?
  | .call c _ => Option.decidableForallMem (s.conns c)
  | .newConnection _ _ _ => isTrue trivial
  | .callFromOther _ _ => isTrue trivial

/-- What holds of all connections together. -/
structure Names (s : TcpServer) : Prop where
  ipPort : s.ipPort.length ≤ 21
  bound : s.nextConnId ≤ 2 ^ 31
  created : ∀ c, s.conns c ≠ none → c < s.nextConnId
  named : ∀ c conn, s.conns c = some conn → conn.name = s.connName c
  entries : ∀ nm c, s.connections nm = some c → ∃ conn, s.conns c = some conn ∧ conn.name = nm

structure Inv (s : TcpServer) : Prop where
  names : Names s
  good : ∀ c, Good s c

section Steps

variable {s s' : TcpServer} {c d : Nat}

/-- Names that the server has given or gives next are distinct. -/
theorem Names.distinct {conn : Conn} (h : Names s) (hd : d < 2 ^ 31) (hc : c ≠ d)
    (hconn : s.conns c = some conn) : conn.name ≠ s.connName d := by
  have hlt : c < s.nextConnId := h.created c (by simp [hconn])
  rw [h.named c conn hconn]
  intro he
  exact hc (connName_injective h.ipPort (Nat.lt_of_lt_of_le hlt h.bound) hd he)

theorem Names.unshared {conn : Conn} (h : Names s) (hd : s.conns d = some conn) :
    Unshared s d conn.name := by
  have hlt : d < s.nextConnId := h.created d (by simp [hd])
  intro c conn' hc hconn
  rw [h.named d conn hd]
  exact h.distinct (Nat.lt_of_lt_of_le hlt h.bound) hc hconn

theorem touches_names (ht : Touches s d s') (h : Names s) : Names s' := by
  have hsame (c : Nat) : (s'.conns c).map Conn.name = (s.conns c).map Conn.name := by
    by_cases hc : c = d
    · rw [hc, ht.named]
    · have hv : s'.conns c = s.conns c := congrArg View.conn (ht.others c hc)
      rw [hv]
  have hname : s'.connName = s.connName := by
    funext c
    simp only [connName, ht.name, ht.ipPort]
  refine ⟨ht.ipPort ▸ h.ipPort, ht.nextConnId ▸ h.bound, ?_, ?_, ?_⟩
  · intro c hc
    rw [ht.nextConnId]
    refine h.created c fun hnone => hc ?_
    have hm := hsame c
    rw [hnone] at hm
    simpa using hm
  · intro c conn hconn
    have hm := hsame c
    rw [hconn] at hm
    obtain ⟨conn₀, h₀, hn⟩ := Option.map_eq_some_iff.mp hm.symm
    rw [← hn, hname]
    exact h.named c conn₀ h₀
  · intro nm c he
    obtain ⟨conn₀, h₀, hn⟩ := h.entries nm c (ht.entries nm c he)
    have hm := hsame c
    rw [h₀] at hm
    obtain ⟨conn, hconn, hn'⟩ := Option.map_eq_some_iff.mp hm
    exact ⟨conn, hconn, hn'.trans hn⟩

/-- A step for connection `d` needs a look at that connection only. -/
theorem inv_of_touches (h : Names s) (hg : ∀ c, c ≠ d → Good s c) (ht : Touches s d s')
    (hd : ∃ conn stage n, At s' d conn stage n) : Inv s' := by
  refine ⟨touches_names ht h, fun c => ?_⟩
  by_cases hc : c = d
  · rw [hc]
    exact Or.inr hd
  · exact good_of_view (ht.others c hc) (hg c hc)

theorem Inv.not_blank {conn : Conn} (h : Inv s) (hc : s.conns c = some conn) :
    ∃ stage n, At s c conn stage n := by
  rcases h.good c with hb | ⟨conn', stage, n, ha⟩
  · rw [hb.absent] at hc
    cases hc
  · cases hc.symm.trans ha.tracked.created
    exact ⟨stage, n, ha⟩

/-- A functor waits only for a connection that exists. -/
theorem Inv.queued {l : Nat} {f : LoopFunctor} {rest : List LoopFunctor} (h : Inv s)
    (hq : s.queues l = f :: rest) : ∃ conn stage n, At s (LoopFunctor.conn f) conn stage n := by
  rcases h.good (LoopFunctor.conn f) with hb | ha
  · have hnil := hb.unqueued l
    rw [(queue_pop hq rfl).1] at hnil
    cases hnil
  · exact ha

theorem inv_new (listenAddr : InetAddress) (nameArg : List Char) (wc : Bool) (loops : Nat) :
    Inv (TcpServer.new listenAddr nameArg wc loops) := by
  have hone : 1 ≤ 2 ^ 31 := by decide
  refine ⟨⟨toIpPort_length listenAddr, hone, ?_, ?_, ?_⟩,
    fun c => Or.inl ⟨rfl, fun _ => rfl, rfl⟩⟩
  · intro c hc
    exact absurd rfl hc
  · intro c conn hc
    cases hc
  · intro nm c he
    cases he

/-! ## `NewConnection` -/

theorem enterConnection_names (addr : Nat) (sockfd : Int) (h : Names s)
    (hb : s.nextConnId < 2 ^ 31) : Names (s.enterConnection addr sockfd) := by
  refine ⟨h.ipPort, hb, ?_, ?_, ?_⟩
  · intro c hc
    change c < s.nextConnId + 1
    by_cases hn : c = s.nextConnId
    · omega
    · have hlt := h.created c (by simpa [TcpServer.enterConnection, hn] using hc)
      omega
  · intro c conn hc
    by_cases hn : c = s.nextConnId
    · subst hn
      cases (Function.update_self s.nextConnId _ s.conns).symm.trans hc
      rfl
    · refine h.named c conn ?_
      simpa [TcpServer.enterConnection, hn] using hc
  · intro nm c he
    by_cases hn : nm = s.connName s.nextConnId
    · subst hn
      cases (Function.update_self (s.connName s.nextConnId) _ s.connections).symm.trans he
      exact ⟨s.newConn addr sockfd, Function.update_self .., rfl⟩
    · obtain ⟨conn, hc, hname⟩ := h.entries nm c (by simpa [TcpServer.enterConnection, hn] using he)
      have hne : c ≠ s.nextConnId := by
        have hlt := h.created c (by simp [hc])
        omega
      refine ⟨conn, ?_, hname⟩
      simpa [TcpServer.enterConnection, hne] using hc

theorem enterConnection_others {addr : Nat} {sockfd : Int} (h : Names s)
    (hb : s.nextConnId < 2 ^ 31) (hc : c ≠ s.nextConnId) :
    view (s.enterConnection addr sockfd) c = view s c := by
  have he : ((s.conns c).bind fun conn => (s.enterConnection addr sockfd).connections conn.name) =
      (s.conns c).bind fun conn => s.connections conn.name := by
    cases hconn : s.conns c with
    | none => rfl
    | some conn => exact Function.update_of_ne (h.distinct hb hc hconn) ..
  have hconns : (s.enterConnection addr sockfd).conns c = s.conns c := Function.update_of_ne hc ..
  have hlog : (s.enterConnection addr sockfd).log.filter (fun e => e.conn = c) =
      s.log.filter fun e => e.conn = c := by
    simp [TcpServer.enterConnection, TcpServer.record, Ne.symm hc]
  simp only [view, hconns, he, hlog]
  rfl

theorem enterConnection_tracked (addr : Nat) (sockfd : Int) (hb : Blank s s.nextConnId) :
    Tracked (s.enterConnection addr sockfd) s.nextConnId (s.newConn addr sockfd) none true
      [.newConnection] := by
  have hlog : (view (s.enterConnection addr sockfd) s.nextConnId).log =
      [⟨s.nextConnId, 0, .newConnection⟩] := by
    have hnil := hb.unlogged
    simp only [view] at hnil
    simp [view, TcpServer.enterConnection, TcpServer.record, hnil]
  have hqueue (l : Nat) : (view (s.enterConnection addr sockfd) s.nextConnId).queue l = [] :=
    hb.unqueued l
  refine ⟨Function.update_self .., ?_, ?_, ?_, ?_, ?_⟩
  · intro l
    rw [hqueue]
    rfl
  · intro l g hg
    rw [hqueue] at hg
    cases hg
  · simp [view, TcpServer.enterConnection, TcpServer.newConn]
  · rw [ServerView.history, hlog]
    rfl
  · rw [hlog]
    intro e he
    rw [List.mem_singleton.mp he]
    rfl

theorem Inv.fresh (h : Inv s) : Blank s s.nextConnId := by
  rcases h.good s.nextConnId with hb | ⟨conn, stage, n, ha⟩
  · exact hb
  · exact absurd (h.names.created _ (by simp [ha.tracked.created])) (lt_irrefl _)

theorem newConnection_inv {addr : Nat} {sockfd : Int} {onUp : List Call} (h : Inv s)
    (hb : s.nextConnId < 2 ^ 31) (hn : s.newConnection addr sockfd onUp = .ok s') : Inv s' := by
  have ht := enterConnection_tracked addr sockfd h.fresh
  have hnames := enterConnection_names addr sockfd h.names hb
  have hgood (c : Nat) (hc : c ≠ s.nextConnId) : Good (s.enterConnection addr sockfd) c :=
    good_of_view (enterConnection_others h.names hb hc) (h.good c)
  unfold TcpServer.newConnection at hn
  split at hn
  · rename_i hl
    refine inv_of_touches hnames hgood
      (touches_recordedRun ht.created (hnames.unshared ht.created) hn) ?_
    have hloop : (s.newConn addr sockfd).loop = 0 := hl
    rw [← hloop] at hn
    obtain ⟨conn, stage, ha⟩ := connectEstablished_stage rfl ht hn
    exact ⟨conn, stage, 0, ha⟩
  · cases hn
    refine inv_of_touches hnames hgood (touches_queueInLoop _ rfl) ?_
    refine ⟨s.newConn addr sockfd, .created, 0, ht.queueInLoop rfl rfl, rfl, ?_, rfl⟩
    exact not_not_intro rfl

/-! ## Events, functors and calls -/

theorem event_inv {conn : Conn} {revents : Events} {a : Answers} (h : Inv s)
    (hc : s.conns c = some conn) (hw : Watched conn.world) (hl : CarefulEvent conn.world revents a)
    (he : s.handleEvent conn.loop c revents a = .ok s') : Inv s' := by
  obtain ⟨stage, n, ha⟩ := h.not_blank hc
  refine inv_of_touches h.names (fun d _ => h.good d)
    (touches_recordedRun hc (h.names.unshared hc) he) ?_
  obtain ⟨conn', stage', ha'⟩ := handleEvent_stage ha hw hl he
  exact ⟨conn', stage', n + 1, ha'⟩

/-- Taking the first functor of a loop's queue keeps what holds of the others. -/
theorem pop_names {l : Nat} {f : LoopFunctor} {rest : List LoopFunctor} (h : Inv s)
    (hq : s.queues l = f :: rest) :
    Names (pop s l rest) ∧ ∀ d, d ≠ LoopFunctor.conn f → Good (pop s l rest) d := by
  have ht : Touches s (LoopFunctor.conn f) (pop s l rest) := touches_pop hq rfl
  exact ⟨touches_names ht h.names, fun d hd => good_of_view (ht.others d hd) (h.good d)⟩

theorem functor_inv {l : Nat} {answer : WriteResult} {onRun : List Call} {f : LoopFunctor}
    {rest : List LoopFunctor} (h : Inv s) (hq : s.queues l = f :: rest)
    (hcare : ∀ c g conn, f = .connection c g → s.conns c = some conn →
      Careful conn.world onRun g)
    (hr : (pop s l rest).runFunctor l answer onRun f = .ok s') : Inv s' := by
  obtain ⟨hnames, hgood⟩ := pop_names h hq
  obtain ⟨conn, stage, n, ha⟩ := h.queued hq
  cases f with
  | connectEstablished c =>
    obtain ⟨hwait, ht⟩ := ha.tracked.popProtocol hq rfl rfl
    obtain ⟨rfl, rfl, -⟩ | ⟨-, -, hf⟩ | ⟨-, -, hf⟩ := waiting_inj hwait
    · change (pop s conn.loop rest).connectEstablished conn.loop c onRun = .ok s' at hr
      refine inv_of_touches hnames hgood
        (touches_recordedRun ht.created (hnames.unshared ht.created) hr) ?_
      obtain ⟨conn', stage', ha'⟩ := connectEstablished_stage ha.holds.2.2 ht hr
      exact ⟨conn', stage', 0, ha'⟩
    · cases hf
    · cases hf
  | removeConnectionInLoop c =>
    obtain ⟨hwait, ht⟩ := ha.tracked.popProtocol hq rfl rfl
    obtain ⟨-, -, hf⟩ | ⟨rfl, rfl, -⟩ | ⟨-, -, hf⟩ := waiting_inj hwait
    · cases hf
    · cases hr
      refine inv_of_touches hnames hgood (touches_removeConnectionInLoop ht.created
        (hnames.unshared ht.created)) ?_
      exact ⟨conn, .erased, n, removeConnectionInLoop_erased ha.holds ht⟩
    · cases hf
  | connectDestroyed c =>
    obtain ⟨hwait, ht⟩ := ha.tracked.popProtocol hq rfl rfl
    obtain ⟨-, -, hf⟩ | ⟨-, -, hf⟩ | ⟨rfl, rfl, -⟩ := waiting_inj hwait
    · cases hf
    · cases hf
    · change (pop s conn.loop rest).connectDestroyed conn.loop c onRun = .ok s' at hr
      refine inv_of_touches hnames hgood
        (touches_recordedRun ht.created (hnames.unshared ht.created) hr) ?_
      obtain ⟨conn', stage', ha'⟩ := connectDestroyed_stage ha.holds ht hr
      exact ⟨conn', stage', n, ha'⟩
  | connection c g =>
    obtain ⟨hm, rfl, ht⟩ := ha.tracked.popOwn hq
    have hst : stage ≠ .created := by
      rintro rfl
      simp [Stage.moments] at hm
    change (pop s conn.loop rest).runConnection conn.loop c (·.runFunctor answer onRun g) =
      .ok s' at hr
    have hc : Careful conn.world onRun g := hcare c g conn rfl ha.tracked.created
    refine inv_of_touches hnames hgood (touches_runConnection ht.created
      (hnames.unshared ht.created) hr) ?_
    obtain ⟨conn', stage', ha'⟩ := runConnection_stage hst
      (fun ho w hw => (runFunctor_open ho hc hw).imp_right (·.toShut))
      (fun hs w hw => runFunctor_shut hs hc hw)
      ⟨ht, ha.holds⟩ hr
    exact ⟨conn', stage', n, ha'⟩

theorem established_stage {conn : Conn} {stage : Stage} {n : Nat} (ha : At s c conn stage n)
    (hs : conn.world.conn.state ≠ .kConnecting) : stage ≠ .created := by
  rintro rfl
  exact hs ha.holds.1

theorem call_inv {conn : Conn} {call : Call} (h : Inv s) (hc : s.conns c = some conn)
    (hs : conn.world.conn.state ≠ .kConnecting)
    (hq : conn.world.conn.state = .kDisconnected → Quiet conn.world [call])
    (hr : s.runConnection conn.loop c (·.call call) = .ok s') : Inv s' := by
  obtain ⟨stage, n, ha⟩ := h.not_blank hc
  refine inv_of_touches h.names (fun d _ => h.good d)
    (touches_runConnection hc (h.names.unshared hc) hr) ?_
  have hshut (hw : Shut conn.world) (w : World) (he : conn.world.call call = .ok w) : Shut w := by
    rw [call_closed hw.closed hw.noEvent (hq hw.closed)] at he
    cases he
    exact hw
  obtain ⟨conn', stage', ha'⟩ := runConnection_stage (established_stage ha hs)
    (fun ho w he => Or.inl (call_open ho he)) hshut ha hr
  exact ⟨conn', stage', n, ha'⟩

theorem callFromOther_inv {conn : Conn} {call : Call} (h : Inv s) (hc : s.conns c = some conn)
    (hs : conn.world.conn.state ≠ .kConnecting) :
    Inv (s.store c conn (conn.world.callFromOther call)) := by
  obtain ⟨stage, n, ha⟩ := h.not_blank hc
  refine inv_of_touches h.names (fun d _ => h.good d) (touches_store hc) ?_
  have hst := established_stage ha hs
  refine ⟨_, stage, n, ha.tracked.store (Stage.established_mem n hst), ?_⟩
  have hshut (hw : Shut conn.world) :
      Shut { conn.world.callFromOther call with pending := [] } :=
    have hw' := callFromOther_shut call hw
    ⟨hw'.closed, hw'.noEvent, hw'.unwatched, hw'.closes⟩
  cases stage with
  | created => exact absurd rfl hst
  | up =>
    have ho := callFromOther_open call ha.holds
    exact ⟨ho.isOpen, ho.linked, ho.closes⟩
  | closed => exact hshut ha.holds
  | erased => exact hshut ha.holds
  | gone => exact hshut ha.holds

theorem step_inv {a : ServerStep} (h : Inv s) (hs : Step s a s' ∧ LeavesClosed s a) : Inv s' := by
  obtain ⟨⟨hen, hp⟩, hl⟩ := hs
  cases a with
  | newConnection addr sockfd onUp => exact newConnection_inv h hen hp
  | event c revents a =>
    obtain ⟨conn, hc, hw⟩ := hen
    simp only [perform, Option.mem_def.mp hc] at hp
    exact event_inv h hc hw (hl conn hc) hp
  | functor l answer onRun =>
    cases hq : s.queues l with
    | nil => exact absurd hq hen
    | cons f rest =>
      simp only [perform, hq] at hp
      refine functor_inv h hq ?_ hp
      rintro c g conn rfl hc
      exact hl (.connection c g) (by simp [hq]) conn hc
  | call c call =>
    obtain ⟨conn, hc, hk⟩ := hen
    simp only [perform, Option.mem_def.mp hc] at hp
    exact call_inv h hc hk (hl conn hc) hp
  | callFromOther c call =>
    obtain ⟨conn, hc, hk⟩ := hen
    simp only [perform, Option.mem_def.mp hc] at hp
    cases hp
    exact callFromOther_inv h hc hk

theorem run_inv {steps : List ServerStep}
    (hr : Run (fun s a s' => Step s a s' ∧ LeavesClosed s a) s steps s') (h : Inv s) : Inv s' :=
  hr.invariant (P := Inv) (fun _ _ _ hi hs => step_inv hi hs) h

end Steps

/-! ## The protocol -/

/-- What the server promises of its table, its names, and the order and place of
what runs for each connection. -/
structure Protocol (s : TcpServer) : Prop where
  table : ∀ nm c, s.connections nm = some c ↔
    (∃ conn, s.conns c = some conn ∧ conn.name = nm) ∧ .newConnection ∈ history s c ∧
      .removeConnectionInLoop ∉ history s c
  distinct : ∀ c d conn conn', c ≠ d → s.conns c = some conn → s.conns d = some conn' →
    conn.name ≠ conn'.name
  free : s.nextConnId < 2 ^ 31 → s.connections (s.connName s.nextConnId) = none
  order : ∀ c, ∃ n, history s c <+:
    [.newConnection, .connectEstablished] ++ List.replicate n .event ++
      [.handleClose, .removeConnectionInLoop, .connectDestroyed]
  place : ∀ e ∈ s.log, ∃ conn, s.conns e.conn = some conn ∧ e.loop = home conn.loop e.moment

section Protocol

variable {s : TcpServer} {c n : Nat} {conn : Conn} {stage : Stage}

theorem Stage.inTable_iff (n : Nat) (stage : Stage) :
    stage.inTable = true ↔
      .newConnection ∈ stage.moments n ∧ .removeConnectionInLoop ∉ stage.moments n := by
  cases stage with
  | created => simp [inTable, moments]
  | up => simp [inTable, moments, served]
  | closed => simp [inTable, moments, served]
  | erased => simp [inTable, moments, served]
  | gone => simp [inTable, moments, served]

theorem Stage.moments_prefix (n : Nat) (stage : Stage) : stage.moments n <+:
    [.newConnection, .connectEstablished] ++ List.replicate n .event ++
      [.handleClose, .removeConnectionInLoop, .connectDestroyed] := by
  cases stage with
  | created => exact ⟨_, rfl⟩
  | up => exact ⟨_, rfl⟩
  | closed =>
    refine ⟨[.removeConnectionInLoop, .connectDestroyed], ?_⟩
    simp [moments, served]
  | erased =>
    refine ⟨[.connectDestroyed], ?_⟩
    simp [moments, served]
  | gone =>
    refine ⟨[], ?_⟩
    simp [moments, served]

theorem At.entry_iff (ha : At s c conn stage n) :
    s.connections conn.name = some c ↔
      .newConnection ∈ history s c ∧ .removeConnectionInLoop ∉ history s c := by
  have he := ha.tracked.entry
  simp only [view, ha.tracked.created, Option.bind_some] at he
  rw [he, ha.tracked.history, ← Stage.inTable_iff]
  cases stage.inTable with
  | true => simp
  | false => simp

theorem Inv.protocol (h : Inv s) : Protocol s := by
  refine ⟨?_, ?_, ?_, ?_, ?_⟩
  · intro nm c
    constructor
    · intro he
      obtain ⟨conn, hc, rfl⟩ := h.names.entries nm c he
      obtain ⟨stage, n, ha⟩ := h.not_blank hc
      exact ⟨⟨conn, hc, rfl⟩, ha.entry_iff.mp he⟩
    · rintro ⟨⟨conn, hc, rfl⟩, hm⟩
      obtain ⟨stage, n, ha⟩ := h.not_blank hc
      exact ha.entry_iff.mpr hm
  · intro c d conn conn' hne hc hd
    exact h.names.unshared hd c conn hne hc
  · intro hb
    refine Option.eq_none_iff_forall_ne_some.mpr fun c he => ?_
    obtain ⟨conn, hc, hn⟩ := h.names.entries _ c he
    have hlt : c < s.nextConnId := h.names.created c (by simp [hc])
    exact h.names.distinct hb (Nat.ne_of_lt hlt) hc hn
  · intro c
    rcases h.good c with hb | ⟨conn, stage, n, ha⟩
    · refine ⟨0, ?_⟩
      rw [history, hb.unlogged]
      exact List.nil_prefix
    · refine ⟨n, ?_⟩
      rw [ha.tracked.history]
      exact Stage.moments_prefix n stage
  · intro e he
    have hmem : e ∈ (view s e.conn).log := by simp [view, he]
    rcases h.good e.conn with hb | ⟨conn, stage, n, ha⟩
    · rw [hb.unlogged] at hmem
      cases hmem
    · exact ⟨conn, ha.tracked.created, ha.tracked.place e hmem⟩

end Protocol

/-- In every run of a server in which no step puts the channel of a closed
connection back into the poller, the protocol holds in every state. -/
theorem connection_table_protocol (listenAddr : InetAddress) (nameArg : List Char)
    (writeComplete : Bool) (loops : Nat) {s : TcpServer} {steps : List ServerStep}
    (hr : Run (fun s a s' => Step s a s' ∧ LeavesClosed s a)
      (TcpServer.new listenAddr nameArg writeComplete loops) steps s) : Protocol s :=
  (run_inv hr (inv_new listenAddr nameArg writeComplete loops)).protocol

/-- A server on 127.0.0.1:8000 with one I/O loop. -/
def echoServer : TcpServer := TcpServer.new ⟨127, 0, 0, 1, 8000⟩ ['e', 'c', 'h', 'o'] false 1

/-- A connection that its peer closes is erased by the base loop and then destroyed. -/
theorem protocol_after_peer_close :
    ∃ s, Run (fun s a s' => Step s a s' ∧ LeavesClosed s a) echoServer
      [.newConnection 1 5 [], .functor 1 (.count 0) [],
        .event 1 .kReadEvent ⟨.received [], .count 0, [], []⟩,
        .functor 0 (.count 0) [], .functor 1 (.count 0) []] s ∧
      history s 1 = [.newConnection, .connectEstablished, .event, .handleClose,
        .removeConnectionInLoop, .connectDestroyed] ∧ Protocol s := by
  have hok : (Run.exec (fun s a => Enabled s a ∧ LeavesClosed s a) perform echoServer
      [.newConnection 1 5 [], .functor 1 (.count 0) [],
        .event 1 .kReadEvent ⟨.received [], .count 0, [], []⟩,
        .functor 0 (.count 0) [], .functor 1 (.count 0) []]).map (history · 1) =
      some [.newConnection, .connectEstablished, .event, .handleClose,
        .removeConnectionInLoop, .connectDestroyed] := by decide +kernel
  obtain ⟨s, hs, hh⟩ := Option.map_eq_some_iff.mp hok
  have hr := (Run.of_exec hs).mono (S := fun s a s' => Step s a s' ∧ LeavesClosed s a)
    fun _ _ _ h => ⟨⟨h.1.1, h.2⟩, h.1.2⟩
  exact ⟨s, hr, hh, connection_table_protocol _ _ _ _ hr⟩

/-- `StartRead` after `ForceClose` has closed the connection: its channel is watched
again, and bytes of the peer are handled after `HandleClose`. -/
theorem event_after_handleClose :
    ∃ s, Run Step echoServer
      [.newConnection 1 5 [], .functor 1 (.count 0) [], .callFromOther 1 .forceClose,
        .functor 1 (.count 0) [], .callFromOther 1 .startRead, .functor 1 (.count 0) [],
        .event 1 .kReadEvent ⟨.received [120], .count 0, [], []⟩] s ∧
      history s 1 = [.newConnection, .connectEstablished, .handleClose, .event] ∧
      ¬Protocol s := by
  have hok : (Run.exec Enabled perform echoServer
      [.newConnection 1 5 [], .functor 1 (.count 0) [], .callFromOther 1 .forceClose,
        .functor 1 (.count 0) [], .callFromOther 1 .startRead, .functor 1 (.count 0) [],
        .event 1 .kReadEvent ⟨.received [120], .count 0, [], []⟩]).map (history · 1) =
      some [.newConnection, .connectEstablished, .handleClose, .event] := by decide +kernel
  obtain ⟨s, hs, hh⟩ := Option.map_eq_some_iff.mp hok
  refine ⟨s, Run.of_exec hs, hh, fun hp => ?_⟩
  obtain ⟨n, t, ht⟩ := hp.order 1
  rw [hh] at ht
  cases n with
  | zero => simp at ht
  | succ n => simp [List.replicate_succ] at ht

end RyanNetwork.Tcp.Table
