import RyanNetwork.Tcp.Table

/-!
# How long a connection lives

A connection is deleted with its last `TcpConnectionPtr`. The table of the server holds one,
and so do the functors bound to `conn` or `shared_from_this()`; the others are bound to a
plain `this`, and the poller keeps a plain pointer to the channel. Functors of one loop run
in the order of its queue, so what was queued while the server still had the connection in
its table runs before `ConnectDestroyed`, the last functor that owns it.
-/
namespace RyanNetwork.Tcp.Lifetime

open Lib Registration ServerView Table
open Callbacks (Quiet call_closed)
open World (Call Answers)

set_option autoImplicit false

/-- Whether the functor is bound to a `TcpConnectionPtr`. -/
def owningFunctor : PendingFunctor → Bool
  | .sendInLoop _ => false
  | .shutdownInLoop => false
  | .startReadInLoop => false
  | .stopReadInLoop => false
  | .forceCloseInLoop => true
  | .writeComplete => true
  | .highWatermark _ => true

def owning : LoopFunctor → Bool
  | .connection _ f => owningFunctor f
  | _ => true

/-- Somebody has a `TcpConnectionPtr`: the table, or a functor that waits. -/
def Owned (s : TcpServer) (c : Nat) : Prop :=
  (∃ nm, s.connections nm = some c) ∨
    ∃ l, ∃ f ∈ s.queues l, LoopFunctor.conn f = c ∧ owning f = true

/-! ## What runs on the loop queues owning functors only -/

def Owns (w : World) : Prop := ∀ f ∈ w.pending, owningFunctor f = true

section Owns

variable {w w' : World}

theorem owns_queueInLoop {f : PendingFunctor} (h : Owns w) (hf : owningFunctor f = true) :
    Owns (w.queueInLoop f) := by
  intro g hg
  rcases List.mem_append.mp hg with hg | hg
  · exact h g hg
  · rw [List.mem_singleton.mp hg]
    exact hf

theorem owns_queueIf {f : PendingFunctor} (b : Bool) (h : Owns w) (hf : owningFunctor f = true) :
    Owns (w.queueIf b f) := by
  cases b with
  | true => exact owns_queueInLoop h hf
  | false => exact h

theorem owns_onChannel {op : EpollPoller → Channel → Except Fault (EpollPoller × Channel)}
    (h : Owns w) (hop : w.onChannel op = .ok w') : Owns w' := by
  obtain ⟨p, c, -, rfl⟩ := World.onChannel_ok hop
  exact h

/-- The part that opening and closing share: the state, the channel, the callback. -/
theorem owns_notify {op : EpollPoller → Channel → Except Fault (EpollPoller × Channel)}
    {state : StateE} (e : Effect) (h : Owns w)
    (hop : (w.setState state).onChannel op = .ok w') : Owns (w'.emit e) := by
  have hs : Owns (w.setState state) := h
  have ho : Owns w' := owns_onChannel hs hop
  exact ho

theorem owns_shutdownInLoop (h : Owns w) : Owns w.shutdownInLoop := by
  unfold World.shutdownInLoop
  split
  · exact h
  · exact h

theorem owns_bufferRemaining {data : List UInt8} {n r : Nat} (h : Owns w)
    (hb : w.bufferRemaining data n r = .ok w') : Owns w' := by
  rcases World.bufferRemaining_ok hb with rfl | ⟨b, c, len, v, rfl, rfl | hv⟩
  · exact h
  · exact owns_queueIf c h rfl
  · exact owns_onChannel (w := World.setOutput _ b) (owns_queueIf c h rfl) hv

theorem owns_sendInLoop {data : List UInt8} {answer : WriteResult} (h : Owns w)
    (hs : w.sendInLoop data answer = .ok w') : Owns w' := by
  rcases World.sendInLoop_ok hs with rfl | ⟨n, c, hb⟩ | hb
  · exact h
  · exact owns_bufferRemaining (owns_queueIf (w := w.emit _) c h rfl) hb
  · exact owns_bufferRemaining h hb

theorem owns_startReadInLoop (h : Owns w) (hs : w.startReadInLoop = .ok w') : Owns w' := by
  rcases World.startReadInLoop_ok hs with rfl | ⟨v, hv, rfl⟩
  · exact h
  · have hov : Owns v := owns_onChannel h hv
    exact hov

theorem owns_stopReadInLoop (h : Owns w) (hs : w.stopReadInLoop = .ok w') : Owns w' := by
  rcases World.stopReadInLoop_ok hs with rfl | ⟨v, hv, rfl⟩
  · exact h
  · have hov : Owns v := owns_onChannel h hv
    exact hov

theorem owns_call {c : Call} (h : Owns w) (hc : w.call c = .ok w') : Owns w' := by
  cases c with
  | send data answer =>
    simp only [World.call] at hc
    split at hc
    · exact owns_sendInLoop h hc
    · cases hc
      exact h
  | shutdown =>
    simp only [World.call] at hc
    split at hc
    · cases hc
      exact owns_shutdownInLoop (w := w.setState _) h
    · cases hc
      exact h
  | forceClose =>
    simp only [World.call] at hc
    split at hc
    · cases hc
      exact owns_queueInLoop (w := w.setState _) h rfl
    · cases hc
      exact h
  | startRead => exact owns_startReadInLoop h hc
  | stopRead => exact owns_stopReadInLoop h hc

theorem owns_calls {cs : List Call} (h : Owns w) (hc : w.calls cs = .ok w') : Owns w' := by
  induction cs generalizing w with
  | nil =>
    cases hc
    exact h
  | cons c cs ih =>
    obtain ⟨v, hv, hc⟩ := bind_ok hc
    exact ih (owns_call h hv) hc

theorem owns_connectEstablished {onUp : List Call} (h : Owns w)
    (hc : w.connectEstablished onUp = .ok w') : Owns w' := by
  obtain ⟨v, hv, hc⟩ := bind_ok hc
  exact owns_calls (owns_notify _ h hv) hc

theorem owns_handleClose {onDown : List Call} (h : Owns w)
    (hc : w.handleClose onDown = .ok w') : Owns w' := by
  unfold World.handleClose at hc
  split at hc
  · obtain ⟨v, hv, hc⟩ := bind_ok hc
    obtain ⟨u, hu, hc⟩ := bind_ok hc
    cases hc
    have hou : Owns u := owns_calls (owns_notify _ h hv) hu
    exact hou
  · cases hc

theorem owns_connectDestroyed {onDown : List Call} (h : Owns w)
    (hc : w.connectDestroyed onDown = .ok w') : Owns w' := by
  obtain ⟨v, hv, hc⟩ := bind_ok hc
  refine owns_onChannel ?_ hc
  unfold World.disconnect at hv
  split at hv
  · obtain ⟨u, hu, hv⟩ := bind_ok hv
    exact owns_calls (owns_notify _ h hu) hv
  · cases hv
    exact h

theorem owns_handleRead {answer : Buffer.ReadResult} {onMessage onDown : List Call} (h : Owns w)
    (hr : w.handleRead answer onMessage onDown = .ok w') : Owns w' := by
  unfold World.handleRead at hr
  split at hr
  · exact owns_handleClose h hr
  · obtain ⟨b, -, hr⟩ := bind_ok hr
    have hb : Owns ((w.setInput b).emit .messageCallback) := h
    exact owns_calls hb hr
  · cases hr
    exact h

theorem owns_afterDrain (h : Owns w) (hd : w.afterDrain = .ok w') : Owns w' := by
  obtain ⟨v, hv, hd⟩ := bind_ok hd
  have hq := owns_queueIf (f := .writeComplete) v.conn.writeCompleteCallback
    (owns_onChannel h hv) rfl
  cases hd
  split
  · exact owns_shutdownInLoop hq
  · exact hq

theorem owns_handleWrite {answer : WriteResult} (h : Owns w)
    (hw : w.handleWrite answer = .ok w') : Owns w' := by
  rcases World.handleWrite_ok hw with rfl | ⟨-, offered, n, -, hd⟩
  · exact h
  · have ho : Owns ((w.emit (.wrote (offered.take n))).setOutput
        (w.conn.outputBuffer.retrieve n)) := by
      rw [Owns, World.setOutput_pending, World.emit_pending]
      exact h
    rcases World.onlyIf_ok hd with ⟨-, hd⟩ | ⟨-, rfl⟩
    · exact owns_afterDrain ho hd
    · exact ho

theorem owns_handleEvent {revents : Events} {a : Answers} (h : Owns w)
    (he : w.handleEvent revents a = .ok w') : Owns w' := by
  obtain ⟨u, hu, he⟩ := bind_ok he
  obtain ⟨v, hv, he⟩ := bind_ok he
  have hou : Owns u := by
    rcases World.onlyIf_ok hu with ⟨-, hu⟩ | ⟨-, rfl⟩
    · exact owns_handleClose h hu
    · exact h
  have hov : Owns v := by
    rcases World.onlyIf_ok hv with ⟨-, hv⟩ | ⟨-, rfl⟩
    · exact owns_handleRead hou hv
    · exact hou
  rcases World.onlyIf_ok he with ⟨-, he⟩ | ⟨-, rfl⟩
  · exact owns_handleWrite hov he
  · exact hov

theorem owns_runFunctor {answer : WriteResult} {onRun : List Call} {f : PendingFunctor}
    (h : Owns w) (hr : w.runFunctor answer onRun f = .ok w') : Owns w' := by
  cases f with
  | sendInLoop message => exact owns_sendInLoop h hr
  | shutdownInLoop =>
    cases hr
    exact owns_shutdownInLoop h
  | forceCloseInLoop =>
    simp only [World.runFunctor, World.forceCloseInLoop] at hr
    split at hr
    · exact owns_handleClose h hr
    · cases hr
      exact h
  | startReadInLoop => exact owns_startReadInLoop h hr
  | stopReadInLoop => exact owns_stopReadInLoop h hr
  | writeComplete => exact owns_calls h hr
  | highWatermark len => exact owns_calls h hr

end Owns

/-! ## The last owner -/

/-- What is queued behind `ConnectDestroyed` owns the connection. -/
def LastOwner (q : List LoopFunctor) : Prop :=
  ∀ pre c post, q = pre ++ .connectDestroyed c :: post → ∀ f ∈ post, owning f = true

section LastOwner

variable {q xs : List LoopFunctor} {g : LoopFunctor}

theorem LastOwner.append (h : LastOwner q) (hx : ∀ f ∈ xs, owning f = true) :
    LastOwner (q ++ xs) := by
  intro pre c post he f hf
  rcases List.append_eq_append_iff.mp he with ⟨as, -, hxs⟩ | ⟨bs, hq, hbs⟩
  · refine hx f ?_
    rw [hxs]
    exact List.mem_append_right _ (List.mem_cons_of_mem _ hf)
  · cases bs with
    | nil =>
      refine hx f ?_
      rw [← List.nil_append xs, ← hbs]
      exact List.mem_cons_of_mem _ hf
    | cons b bs =>
      rw [List.cons_append, List.cons.injEq] at hbs
      obtain ⟨rfl, rfl⟩ := hbs
      rcases List.mem_append.mp hf with hf | hf
      · exact h pre c bs hq f hf
      · exact hx f hf

theorem LastOwner.tail (h : LastOwner (g :: q)) : LastOwner q := by
  intro pre c post he
  refine h (g :: pre) c post ?_
  rw [he, List.cons_append]

theorem lastOwner_of_not_mem (h : ∀ c, .connectDestroyed c ∉ q) : LastOwner q := by
  rintro pre c post rfl
  exact absurd (List.mem_append_right _ List.mem_cons_self) (h c)

end LastOwner

/-- What holds of a connection while it waits for its last owner: once `ConnectDestroyed` has
run, whatever is left in the queues owns it. -/
structure Life (v : View) : Prop where
  pending : ∀ conn ∈ v.conn, Owns conn.world
  last : ∀ l, LastOwner (v.queue l)
  released : .connectDestroyed ∈ v.log.map LogEntry.moment → ∀ l, ∀ f ∈ v.queue l, owning f = true

/-- Once `ConnectDestroyed` has run, the poller does not know the channel. -/
def Removed (v : View) : Prop :=
  .connectDestroyed ∈ v.log.map LogEntry.moment →
    ∀ conn ∈ v.conn, conn.world.conn.channel.index = kNew

section Life

variable {s s' : TcpServer} {c l : Nat} {conn : Conn}

theorem log_record (s : TcpServer) (c l : Nat) (m : Moment) :
    (view (s.record c l m) c).log = (view s c).log ++ [⟨c, l, m⟩] := by
  simp [view, TcpServer.record]

theorem Life.record {m : Moment} (h : Life (view s c))
    (hm : m = .connectDestroyed → ∀ k, ∀ f ∈ (view s c).queue k, owning f = true) :
    Life (view (s.record c l m) c) := by
  refine ⟨h.pending, h.last, ?_⟩
  rw [log_record, List.map_append, List.mem_append]
  rintro (hd | hd)
  · exact h.released hd
  · exact hm (List.mem_singleton.mp hd).symm

theorem Life.queueInLoop {f : LoopFunctor} (h : Life (view s c)) (hf : LoopFunctor.conn f = c)
    (ho : owning f = true) : Life (view (s.queueInLoop l f) c) := by
  have hnew (k : Nat) : ∀ g ∈ (if k = l then [f] else []), owning g = true := by
    intro g hg
    split at hg
    · rw [List.mem_singleton.mp hg]
      exact ho
    · cases hg
  refine ⟨h.pending, ?_, ?_⟩
  · intro k
    rw [queue_queueInLoop s hf]
    exact (h.last k).append (hnew k)
  · intro hd k g hg
    rw [queue_queueInLoop s hf] at hg
    rcases List.mem_append.mp hg with hg | hg
    · exact h.released hd k g hg
    · exact hnew k g hg

theorem Life.store {w : World} (h : Life (view s c)) (hw : Owns w) :
    Life (view (s.store c conn w) c) := by
  have hnew (k : Nat) : ∀ g ∈ (if k = conn.loop then w.pending.map (LoopFunctor.connection c)
      else []), owning g = true := by
    intro g hg
    split at hg
    · obtain ⟨f, hf, rfl⟩ := List.mem_map.mp hg
      exact hw f hf
    · cases hg
  refine ⟨?_, ?_, ?_⟩
  · intro conn' hc f hf
    cases (Function.update_self c _ s.conns).symm.trans hc
    cases hf
  · intro k
    rw [queue_store]
    exact (h.last k).append (hnew k)
  · intro hd k g hg
    rw [queue_store] at hg
    rcases List.mem_append.mp hg with hg | hg
    · exact h.released hd k g hg
    · exact hnew k g hg

theorem Life.removeConnectionInLoop (h : Life (view s c)) (hc : s.conns c = some conn) :
    Life (view (s.removeConnectionInLoop l c) c) := by
  unfold TcpServer.removeConnectionInLoop
  rw [hc]
  have hr : Life (view (s.record c l .removeConnectionInLoop) c) := h.record fun hm => nomatch hm
  have he : Life (view (erase (s.record c l .removeConnectionInLoop) conn.name) c) :=
    ⟨hr.pending, hr.last, hr.released⟩
  exact he.queueInLoop rfl rfl

theorem Life.removeConnection (h : Life (view s c)) (hc : s.conns c = some conn) :
    Life (view (s.removeConnection l c) c) := by
  unfold TcpServer.removeConnection
  split
  · exact h.removeConnectionInLoop hc
  · exact h.queueInLoop rfl rfl

theorem Life.runConnection {f : World → Except Fault World} (h : Life (view s c))
    (hc : s.conns c = some conn) (hf : ∀ w, f conn.world = .ok w → Owns w)
    (hr : s.runConnection l c f = .ok s') : Life (view s' c) := by
  obtain ⟨w, hw, rfl⟩ := runConnection_ok hc hr
  have hst : Life (view (s.store c conn w) c) := h.store (hf w hw)
  split
  · have hrec : Life (view ((s.store c conn w).record c l .handleClose) c) :=
      hst.record fun hm => nomatch hm
    exact hrec.removeConnection (Function.update_self ..)
  · exact hst

theorem Life.pop {f : LoopFunctor} {rest : List LoopFunctor} (h : Life (view s c))
    (hq : s.queues l = f :: rest) (hf : LoopFunctor.conn f = c) :
    Life (view (pop s l rest) c) := by
  obtain ⟨hhead, hother⟩ := queue_pop hq hf
  refine ⟨h.pending, ?_, ?_⟩
  · intro k
    by_cases hk : k = l
    · subst hk
      exact (hhead ▸ h.last k).tail
    · rw [hother k hk]
      exact h.last k
  · intro hd k g hg
    by_cases hk : k = l
    · subst hk
      exact h.released hd k g (hhead ▸ List.mem_cons_of_mem _ hg)
    · exact h.released hd k g (hother k hk ▸ hg)

theorem history_record (s : TcpServer) (c l : Nat) (m : Moment) :
    history (s.record c l m) c = history s c ++ [m] := by
  rw [history, log_record, List.map_append]
  rfl

theorem removeConnection_keeps (s : TcpServer) (c l : Nat) :
    (s.removeConnection l c).conns = s.conns ∧
      (.connectDestroyed ∈ history (s.removeConnection l c) c → .connectDestroyed ∈ history s c) := by
  unfold TcpServer.removeConnection TcpServer.removeConnectionInLoop
  split
  · split
    · refine ⟨rfl, fun hd => ?_⟩
      have hm : .connectDestroyed ∈ history (s.record c l .removeConnectionInLoop) c := hd
      rw [history_record] at hm
      simpa using hm
    · exact ⟨rfl, id⟩
  · exact ⟨rfl, id⟩

/-- What a step of the connection leaves of it, and that it does not run `ConnectDestroyed`. -/
theorem runConnection_keeps {f : World → Except Fault World} (hc : s.conns c = some conn)
    (hr : s.runConnection l c f = .ok s') :
    ∃ w, f conn.world = .ok w ∧
      s'.conns c = some { conn with world := { w with pending := [] } } ∧
      (.connectDestroyed ∈ history s' c → .connectDestroyed ∈ history s c) := by
  obtain ⟨w, hw, rfl⟩ := runConnection_ok hc hr
  refine ⟨w, hw, ?_⟩
  split
  · obtain ⟨hconns, hhist⟩ := removeConnection_keeps ((s.store c conn w).record c l .handleClose) c l
    refine ⟨?_, fun hd => ?_⟩
    · rw [hconns]
      exact Function.update_self ..
    · have hm := hhist hd
      rw [history_record] at hm
      have hs : .connectDestroyed ∈ history (s.store c conn w) c := by simpa using hm
      exact hs
  · exact ⟨Function.update_self .., id⟩

theorem runConnection_removed {f : World → Except Fault World} (hc : s.conns c = some conn)
    (hf : ∀ w, f conn.world = .ok w → .connectDestroyed ∈ history s c →
      w.conn.channel.index = kNew)
    (hr : s.runConnection l c f = .ok s') : Removed (view s' c) := by
  obtain ⟨w, hw, hs', hhist⟩ := runConnection_keeps hc hr
  intro hd conn' hc'
  cases hs'.symm.trans hc'
  exact hf w hw (hhist hd)

theorem recordedRun_removed {m : Moment} {f : World → Except Fault World}
    (hm : .connectDestroyed ≠ m) (hh : .connectDestroyed ∉ history s c)
    (hc : s.conns c = some conn) (hr : (s.record c l m).runConnection l c f = .ok s') :
    Removed (view s' c) := by
  refine runConnection_removed (s := s.record c l m) hc (fun w _ hd => ?_) hr
  rw [history_record, List.mem_append, List.mem_singleton] at hd
  exact absurd hd (not_or.mpr ⟨hh, hm⟩)

/-- `ConnectDestroyed` ends with `channel_->Remove()`. -/
theorem connectDestroyed_index {w w' : World} {onDown : List Call}
    (h : w.connectDestroyed onDown = .ok w') : w'.conn.channel.index = kNew := by
  obtain ⟨v, -, h⟩ := bind_ok h
  obtain ⟨p, d, hrem, rfl⟩ := World.onChannel_ok h
  unfold Channel.remove EpollPoller.removeChannel at hrem
  split at hrem
  · split at hrem
    · obtain ⟨q, -, hrem⟩ := bind_ok hrem
      cases hrem
      rfl
    · cases hrem
      rfl
  · cases hrem

end Life

/-! ## Stages -/

section Stages

variable {s s' : TcpServer} {c l n : Nat} {conn : Conn} {stage : Stage}

/-- While the table has the connection, `ConnectDestroyed` neither waits nor has run. -/
theorem undestroyed (ha : At s c conn stage n) (ht : stage.inTable = true) :
    (∀ k d, .connectDestroyed d ∉ (view s c).queue k) ∧ .connectDestroyed ∉ history s c := by
  refine ⟨?_, ?_⟩
  · intro k d hd
    have hw := ha.tracked.waits k
    have hmem : .connectDestroyed d ∈ ((view s c).queue k).filter LoopFunctor.isProtocol :=
      List.mem_filter.mpr ⟨hd, rfl⟩
    rw [hw] at hmem
    cases stage with
    | created => simp [Stage.waiting, waitingIn] at hmem
    | up => simp [Stage.waiting, waitingIn] at hmem
    | closed => simp [Stage.waiting, waitingIn] at hmem
    | erased => cases ht
    | gone => cases ht
  · rw [ha.tracked.history]
    cases stage with
    | created => simp [Stage.moments]
    | up => simp [Stage.moments, Stage.served]
    | closed => simp [Stage.moments, Stage.served]
    | erased => cases ht
    | gone => cases ht

theorem life_of_undestroyed (hp : ∀ conn ∈ s.conns c, Owns conn.world)
    (hq : ∀ k d, .connectDestroyed d ∉ (view s c).queue k)
    (hh : .connectDestroyed ∉ history s c) : Life (view s c) :=
  ⟨hp, fun k => lastOwner_of_not_mem (hq k), fun hd => absurd hd hh⟩

theorem shut_of_destroyed (ha : At s c conn stage n) (hd : .connectDestroyed ∈ history s c) :
    Shut conn.world := by
  cases stage with
  | created => exact absurd hd (undestroyed ha rfl).2
  | up => exact absurd hd (undestroyed ha rfl).2
  | closed => exact absurd hd (undestroyed ha rfl).2
  | erased => exact ha.holds
  | gone => exact ha.holds

end Stages

/-! ## Steps of the server -/

/-- A read switch of another thread is called only while the server lists the connection.
The other calls look at the state first, and queue nothing on a closed connection. -/
def WhileListed (s : TcpServer) : ServerStep → Prop
  | .callFromOther c .startRead => ∃ conn ∈ s.conns c, s.connections conn.name = some c
  | .callFromOther c .stopRead => ∃ conn ∈ s.conns c, s.connections conn.name = some c
  | _ => True

instance (s : TcpServer) : DecidablePred (WhileListed s)
  | .callFromOther c .startRead => Option.decidableExistsMem (s.conns c)
  | .callFromOther c .stopRead => Option.decidableExistsMem (s.conns c)
  | .callFromOther _ (.send _ _) => isTrue trivial
  | .callFromOther _ .shutdown => isTrue trivial
  | .callFromOther _ .forceClose => isTrue trivial
  | .newConnection _ _ _ => isTrue trivial
  | .event _ _ _ => isTrue trivial
  | .functor _ _ _ => isTrue trivial
  | .call _ _ => isTrue trivial

structure Lives (s : TcpServer) : Prop where
  inv : Inv s
  life : ∀ c, Life (view s c)
  removed : ∀ c, Removed (view s c)

section Steps

variable {s s' : TcpServer} {c d l : Nat} {conn : Conn}

theorem lives_new (listenAddr : InetAddress) (nameArg : List Char) (wc : Bool) (loops : Nat) :
    Lives (TcpServer.new listenAddr nameArg wc loops) := by
  refine ⟨inv_new listenAddr nameArg wc loops, fun c => ?_, fun c hd => nomatch hd⟩
  exact life_of_undestroyed (fun _ hc => nomatch hc) (fun _ _ hd => nomatch hd) fun hd => nomatch hd

/-- A step for connection `d` needs a look at that connection only. -/
theorem lives_of_touches (h : Lives s) (hi : Inv s') (ho : ∀ c, c ≠ d → view s' c = view s c)
    (hl : Life (view s' d)) (hr : Removed (view s' d)) : Lives s' := by
  refine ⟨hi, fun c => ?_, fun c => ?_⟩
  · by_cases hc : c = d
    · rw [hc]
      exact hl
    · rw [ho c hc]
      exact h.life c
  · by_cases hc : c = d
    · rw [hc]
      exact hr
    · rw [ho c hc]
      exact h.removed c

theorem event_lives {revents : Events} {a : Answers} (h : Lives s) (hi : Inv s')
    (hc : s.conns c = some conn) (hw : Watched conn.world)
    (he : s.handleEvent conn.loop c revents a = .ok s') : Lives s' := by
  obtain ⟨stage, n, ha⟩ := h.inv.not_blank hc
  have hup : stage.inTable = true := by
    cases stage with
    | created => rfl
    | up => rfl
    | closed => rfl
    | erased => exact absurd hw ha.holds.unwatched
    | gone => exact absurd hw ha.holds.unwatched
  have hrec : Life (view (s.record c conn.loop .event) c) := (h.life c).record fun hm => nomatch hm
  have hown : Owns conn.world := (h.life c).pending conn hc
  exact lives_of_touches h hi (touches_recordedRun hc (h.inv.names.unshared hc) he).others
    (hrec.runConnection hc (fun w hw => owns_handleEvent hown hw) he)
    (recordedRun_removed (by simp) (undestroyed ha hup).2 hc he)

theorem call_lives {call : Call} (h : Lives s) (hi : Inv s') (hc : s.conns c = some conn)
    (hq : conn.world.conn.state = .kDisconnected → Quiet conn.world [call])
    (hr : s.runConnection conn.loop c (·.call call) = .ok s') : Lives s' := by
  obtain ⟨stage, n, ha⟩ := h.inv.not_blank hc
  have hown : Owns conn.world := (h.life c).pending conn hc
  refine lives_of_touches h hi (touches_runConnection hc (h.inv.names.unshared hc) hr).others
    ((h.life c).runConnection hc (fun w hw => owns_call hown hw) hr)
    (runConnection_removed hc ?_ hr)
  intro w hw hd
  have hs := shut_of_destroyed ha hd
  rw [call_closed hs.closed hs.noEvent (hq hs.closed)] at hw
  cases hw
  exact h.removed c hd conn hc

theorem owns_callFromOther {w : World} {call : Call} (h : Owns w) (hs : Shut w)
    (hn : call ≠ .startRead ∧ call ≠ .stopRead) : Owns (w.callFromOther call) := by
  cases call with
  | send data answer => simpa [World.callFromOther, hs.closed] using h
  | shutdown => simpa [World.callFromOther, hs.closed] using h
  | forceClose => simpa [World.callFromOther, shut_not_open hs] using h
  | startRead => exact absurd rfl hn.1
  | stopRead => exact absurd rfl hn.2

theorem callFromOther_channel (w : World) (call : Call) :
    (w.callFromOther call).conn.channel = w.conn.channel := by
  cases call with
  | send data answer =>
    simp only [World.callFromOther]
    split <;> rfl
  | shutdown =>
    simp only [World.callFromOther]
    split <;> rfl
  | forceClose =>
    simp only [World.callFromOther]
    split <;> rfl
  | startRead => rfl
  | stopRead => rfl

/-- A call of another thread: behind `ConnectDestroyed` it queues nothing. -/
theorem callFromOther_lives {call : Call} (h : Lives s) (hc : s.conns c = some conn)
    (hi : Inv (s.store c conn (conn.world.callFromOther call)))
    (hl : WhileListed s (.callFromOther c call)) :
    Lives (s.store c conn (conn.world.callFromOther call)) := by
  obtain ⟨stage, n, ha⟩ := h.inv.not_blank hc
  refine lives_of_touches h hi (touches_store hc).others ?_ ?_
  · by_cases ht : stage.inTable = true
    · obtain ⟨hq, hh⟩ := undestroyed ha ht
      refine life_of_undestroyed ?_ ?_ hh
      · intro conn' hc' f hf
        cases (Function.update_self c _ s.conns).symm.trans hc'
        cases hf
      · intro k e he
        rw [queue_store] at he
        rcases List.mem_append.mp he with he | he
        · exact hq k e he
        · split at he
          · obtain ⟨g, -, hg⟩ := List.mem_map.mp he
            cases hg
          · cases he
    · have hs : Shut conn.world := by
        cases stage with
        | created => exact absurd rfl ht
        | up => exact absurd rfl ht
        | closed => exact absurd rfl ht
        | erased => exact ha.holds
        | gone => exact ha.holds
      have hunlisted (hx : ∃ conn ∈ s.conns c, s.connections conn.name = some c) : False := by
        obtain ⟨conn', hc', hx⟩ := hx
        cases hc.symm.trans hc'
        have he := ha.tracked.entry
        simp only [view, hc, Option.bind_some, hx, ht] at he
        simp at he
      have hn : call ≠ .startRead ∧ call ≠ .stopRead := by
        refine ⟨?_, ?_⟩
        · rintro rfl
          exact hunlisted hl
        · rintro rfl
          exact hunlisted hl
      exact (h.life c).store (owns_callFromOther ((h.life c).pending conn hc) hs hn)
  · intro hd conn' hc'
    cases (Function.update_self c _ s.conns).symm.trans hc'
    have hsame : (conn.world.callFromOther call).conn.channel.index = kNew := by
      rw [callFromOther_channel]
      exact h.removed c hd conn hc
    exact hsame

theorem newConnection_lives {addr : Nat} {sockfd : Int} {onUp : List Call} (h : Lives s)
    (hb : s.nextConnId < 2 ^ 31) (hi : Inv s')
    (hn : s.newConnection addr sockfd onUp = .ok s') : Lives s' := by
  have hfresh := h.inv.fresh
  have ht := enterConnection_tracked addr sockfd hfresh
  have hnames := enterConnection_names addr sockfd h.inv.names hb
  have hhist : .connectDestroyed ∉ history (s.enterConnection addr sockfd) s.nextConnId := by
    rw [ht.history]
    simp
  have hown : Owns (s.newConn addr sockfd).world := fun _ hf => nomatch hf
  have hlife : Life (view (s.enterConnection addr sockfd) s.nextConnId) := by
    refine life_of_undestroyed ?_ ?_ hhist
    · intro conn hc
      cases ht.created.symm.trans hc
      exact hown
    · intro k e he
      have hnil : (view (s.enterConnection addr sockfd) s.nextConnId).queue k = [] :=
        hfresh.unqueued k
      rw [hnil] at he
      cases he
  have hothers (e : Nat) (he : e ≠ s.nextConnId) :
      view (s.enterConnection addr sockfd) e = view s e :=
    enterConnection_others h.inv.names hb he
  unfold TcpServer.newConnection at hn
  split at hn
  · have hto := (touches_recordedRun ht.created (hnames.unshared ht.created) hn).others
    have hrec : Life (view ((s.enterConnection addr sockfd).record s.nextConnId 0
        .connectEstablished) s.nextConnId) := hlife.record fun hm => nomatch hm
    exact lives_of_touches h hi (fun e he => (hto e he).trans (hothers e he))
      (hrec.runConnection ht.created (fun w hw => owns_connectEstablished hown hw) hn)
      (recordedRun_removed (by simp) hhist ht.created hn)
  · cases hn
    refine lives_of_touches h hi
      (fun e he => ((touches_queueInLoop _ rfl).others e he).trans (hothers e he))
      (hlife.queueInLoop rfl rfl) fun hd => absurd hd hhist

/-- When `ConnectDestroyed` is taken from its queue, what stays behind owns the connection:
functors of the connection wait only on its own loop. -/
theorem owning_behind_connectDestroyed {rest : List LoopFunctor} {stage : Stage} {n : Nat}
    (h : Lives s) (ha : At s c conn stage n) (hl : l = conn.loop)
    (hq : s.queues l = .connectDestroyed c :: rest) :
    ∀ k, ∀ f ∈ (view (pop s l rest) c).queue k, owning f = true := by
  obtain ⟨hhead, hother⟩ := queue_pop hq (c := c) rfl
  intro k f hf
  by_cases hk : k = l
  · subst hk
    exact (h.life c).last k [] c _ hhead f hf
  · rw [hother k hk] at hf
    have hconn : LoopFunctor.conn f = c := by simpa using (List.mem_filter.mp hf).2
    cases f with
    | connection e g =>
      cases hconn
      exact absurd ((ha.tracked.own k g hf).2.trans hl.symm) hk
    | connectEstablished e => rfl
    | removeConnectionInLoop e => rfl
    | connectDestroyed e => rfl

theorem functor_lives {answer : WriteResult} {onRun : List Call} {f : LoopFunctor}
    {rest : List LoopFunctor} (h : Lives s) (hi : Inv s') (hq : s.queues l = f :: rest)
    (hcare : ∀ c g conn, f = .connection c g → s.conns c = some conn →
      Careful conn.world onRun g)
    (hr : (pop s l rest).runFunctor l answer onRun f = .ok s') : Lives s' := by
  have hnames := (pop_names h.inv hq).1
  obtain ⟨conn, stage, n, ha⟩ := h.inv.queued hq
  have hpop (e : Nat) (he : e ≠ LoopFunctor.conn f) : view (pop s l rest) e = view s e :=
    (touches_pop hq rfl).others e he
  have hlife : Life (view (pop s l rest) (LoopFunctor.conn f)) := (h.life _).pop hq rfl
  have hown : Owns conn.world := (h.life _).pending conn ha.tracked.created
  cases f with
  | connectEstablished c =>
    obtain ⟨hwait, ht⟩ := ha.tracked.popProtocol hq rfl rfl
    obtain ⟨rfl, rfl, -⟩ | ⟨-, -, hf⟩ | ⟨-, -, hf⟩ := waiting_inj hwait
    · change (pop s conn.loop rest).connectEstablished conn.loop c onRun = .ok s' at hr
      have hto := (touches_recordedRun ht.created (hnames.unshared ht.created) hr).others
      have hrec : Life (view ((pop s conn.loop rest).record c conn.loop .connectEstablished) c) :=
        hlife.record fun hm => nomatch hm
      exact lives_of_touches h hi (fun e he => (hto e he).trans (hpop e he))
        (hrec.runConnection ht.created (fun w hw => owns_connectEstablished hown hw) hr)
        (recordedRun_removed (s := pop s conn.loop rest) (by simp) (undestroyed ha rfl).2
          ht.created hr)
    · cases hf
    · cases hf
  | removeConnectionInLoop c =>
    obtain ⟨hwait, ht⟩ := ha.tracked.popProtocol hq rfl rfl
    obtain ⟨-, -, hf⟩ | ⟨rfl, rfl, -⟩ | ⟨-, -, hf⟩ := waiting_inj hwait
    · cases hf
    · cases hr
      have hto := (touches_removeConnectionInLoop (l := 0) ht.created
        (hnames.unshared ht.created)).others
      refine lives_of_touches h hi (fun e he => (hto e he).trans (hpop e he))
        (hlife.removeConnectionInLoop ht.created) fun hd => ?_
      have hkeep := (removeConnection_keeps (pop s 0 rest) c 0).2
      rw [TcpServer.removeConnection, if_pos rfl] at hkeep
      exact absurd (hkeep hd) (undestroyed ha rfl).2
    · cases hf
  | connectDestroyed c =>
    obtain ⟨hwait, ht⟩ := ha.tracked.popProtocol hq rfl rfl
    obtain ⟨-, -, hf⟩ | ⟨-, -, hf⟩ | ⟨rfl, rfl, -⟩ := waiting_inj hwait
    · cases hf
    · cases hf
    · change (pop s conn.loop rest).connectDestroyed conn.loop c onRun = .ok s' at hr
      have hto := (touches_recordedRun ht.created (hnames.unshared ht.created) hr).others
      have hrec : Life (view ((pop s conn.loop rest).record c conn.loop .connectDestroyed) c) :=
        hlife.record fun _ => owning_behind_connectDestroyed h ha rfl hq
      exact lives_of_touches h hi (fun e he => (hto e he).trans (hpop e he))
        (hrec.runConnection ht.created (fun w hw => owns_connectDestroyed hown hw) hr)
        (runConnection_removed (s := (pop s conn.loop rest).record c conn.loop
          .connectDestroyed) ht.created (fun w hw _ => connectDestroyed_index hw) hr)
  | connection c g =>
    obtain ⟨-, rfl, ht⟩ := ha.tracked.popOwn hq
    change (pop s conn.loop rest).runConnection conn.loop c (·.runFunctor answer onRun g) =
      .ok s' at hr
    have hto := (touches_runConnection ht.created (hnames.unshared ht.created) hr).others
    refine lives_of_touches h hi (fun e he => (hto e he).trans (hpop e he))
      (hlife.runConnection ht.created (fun w hw => owns_runFunctor hown hw) hr)
      (runConnection_removed ht.created ?_ hr)
    intro w hw hd
    have hs := shut_of_destroyed ha hd
    have hnew := h.removed c hd conn ha.tracked.created
    rcases runFunctor_closed hs.closed hs.noEvent (hcare c g conn rfl ha.tracked.created) hw with
      rfl | rfl
    · exact hnew
    · exact hnew

theorem step_lives {a : ServerStep} (h : Lives s)
    (hs : Step s a s' ∧ LeavesClosed s a ∧ WhileListed s a) : Lives s' := by
  obtain ⟨⟨hen, hp⟩, hl, hw⟩ := hs
  have hi : Inv s' := step_inv h.inv ⟨⟨hen, hp⟩, hl⟩
  cases a with
  | newConnection addr sockfd onUp => exact newConnection_lives h hen hi hp
  | event c revents a =>
    obtain ⟨conn, hc, hwatch⟩ := hen
    simp only [perform, Option.mem_def.mp hc] at hp
    exact event_lives h hi hc hwatch hp
  | functor l answer onRun =>
    cases hq : s.queues l with
    | nil => exact absurd hq hen
    | cons f rest =>
      simp only [perform, hq] at hp
      refine functor_lives h hi hq ?_ hp
      rintro c g conn rfl hc
      exact hl (.connection c g) (by simp [hq]) conn hc
  | call c call =>
    obtain ⟨conn, hc, -⟩ := hen
    simp only [perform, Option.mem_def.mp hc] at hp
    exact call_lives h hi hc (hl conn hc) hp
  | callFromOther c call =>
    obtain ⟨conn, hc, -⟩ := hen
    simp only [perform, Option.mem_def.mp hc] at hp
    cases hp
    exact callFromOther_lives h hc hi hw

theorem run_lives {steps : List ServerStep}
    (hr : Run (fun s a s' => Step s a s' ∧ LeavesClosed s a ∧ WhileListed s a) s steps s')
    (h : Lives s) : Lives s' :=
  hr.invariant (P := Lives) (fun _ _ _ hl hs => step_lives hl hs) h

/-- Until `ConnectDestroyed` has run, the table or that functor owns the connection. -/
theorem owned_or_destroyed {stage : Stage} {n : Nat} (ha : At s c conn stage n) :
    Owned s c ∨ (.connectDestroyed ∈ history s c ∧ ¬Watched conn.world) := by
  have htable (ht : stage.inTable = true) : Owned s c := by
    have he := ha.tracked.entry
    simp only [view, ha.tracked.created, Option.bind_some, ht, ↓reduceIte] at he
    exact .inl ⟨conn.name, he⟩
  cases stage with
  | created => exact .inl (htable rfl)
  | up => exact .inl (htable rfl)
  | closed => exact .inl (htable rfl)
  | erased =>
    have hw := ha.tracked.waits conn.loop
    have hmem : .connectDestroyed c ∈
        ((view s c).queue conn.loop).filter LoopFunctor.isProtocol := by
      rw [hw]
      simp [Stage.waiting, waitingIn]
    have hq := List.mem_of_mem_filter (List.mem_of_mem_filter hmem)
    exact .inl (.inr ⟨conn.loop, _, hq, rfl, rfl⟩)
  | gone =>
    refine .inr ⟨?_, ha.holds.unwatched⟩
    rw [ha.tracked.history]
    simp [Stage.moments]

end Steps

/-- In every run of a server in which no step puts the channel of a closed connection back
into the poller, and no other thread switches reading on a connection that the server has
dropped, with the calls of other threads as single steps: the poller's plain pointers and the functors bound to a plain `this` never outlive
the connection. A watched channel and every functor that waits belong to a connection that
somebody owns, and a connection that nobody owns has left the poller. -/
theorem no_dangling_connection (listenAddr : InetAddress) (nameArg : List Char)
    (writeComplete : Bool) (loops : Nat) {s : TcpServer} {steps : List ServerStep}
    (hr : Run (fun s a s' => Step s a s' ∧ LeavesClosed s a ∧ WhileListed s a)
      (TcpServer.new listenAddr nameArg writeComplete loops) steps s) :
    (∀ c conn, s.conns c = some conn → Watched conn.world → Owned s c) ∧
      (∀ l, ∀ f ∈ s.queues l, Owned s (LoopFunctor.conn f)) ∧
      ∀ c conn, s.conns c = some conn → ¬Owned s c →
        conn.world.conn.channel.index = kNew ∧ .connectDestroyed ∈ history s c := by
  have h := run_lives hr (lives_new listenAddr nameArg writeComplete loops)
  refine ⟨?_, ?_, ?_⟩
  · intro c conn hc hw
    obtain ⟨stage, n, ha⟩ := h.inv.not_blank hc
    exact (owned_or_destroyed ha).resolve_right fun hd => hd.2 hw
  · intro l f hf
    have hview : f ∈ (view s (LoopFunctor.conn f)).queue l := by simp [view, hf]
    rcases h.inv.good (LoopFunctor.conn f) with hb | ⟨conn, stage, n, ha⟩
    · rw [hb.unqueued l] at hview
      cases hview
    · rcases owned_or_destroyed ha with ho | ⟨hd, -⟩
      · exact ho
      · exact .inr ⟨l, f, hf, rfl, (h.life _).released hd l f hview⟩
  · intro c conn hc hn
    obtain ⟨stage, n, ha⟩ := h.inv.not_blank hc
    obtain ⟨hd, -⟩ := (owned_or_destroyed ha).resolve_left hn
    exact ⟨h.removed c hd conn hc, hd⟩

/-- Another thread's `Send` waits in front of `ConnectDestroyed` when the server has already
dropped the connection. -/
theorem send_before_connectDestroyed :
    ∃ s, Run (fun s a s' => Step s a s' ∧ LeavesClosed s a ∧ WhileListed s a)
        (TcpServer.new ⟨127, 0, 0, 1, 8000⟩ ['e', 'c', 'h', 'o'] false 1)
        [.newConnection 1 5 [], .functor 1 (.count 0) [], .callFromOther 1 (.send [104] (.count 0)),
          .event 1 .kReadEvent ⟨.received [], .count 0, [], []⟩, .functor 0 (.count 0) []] s ∧
      s.queues 1 = [.connection 1 (.sendInLoop [104]), .connectDestroyed 1] ∧ Owned s 1 := by
  have hok : (Run.exec (fun s a => Enabled s a ∧ LeavesClosed s a ∧ WhileListed s a) perform
      (TcpServer.new ⟨127, 0, 0, 1, 8000⟩ ['e', 'c', 'h', 'o'] false 1)
      [.newConnection 1 5 [], .functor 1 (.count 0) [], .callFromOther 1 (.send [104] (.count 0)),
        .event 1 .kReadEvent ⟨.received [], .count 0, [], []⟩, .functor 0 (.count 0) []]).map
      (·.queues 1) = some [.connection 1 (.sendInLoop [104]), .connectDestroyed 1] := by
    decide +kernel
  obtain ⟨s, hs, hq⟩ := Option.map_eq_some_iff.mp hok
  have hr := (Run.of_exec hs).mono
    (S := fun s a s' => Step s a s' ∧ LeavesClosed s a ∧ WhileListed s a)
    fun _ _ _ h => ⟨⟨h.1.1, h.2⟩, h.1.2⟩
  have hown := (no_dangling_connection _ _ _ _ hr).2.1 1 (.connection 1 (.sendInLoop [104]))
    (by rw [hq]; exact List.mem_cons_self)
  exact ⟨s, hr, hq, hown⟩

/-- A `StopRead` of another thread that comes after the server has dropped the connection: its
functor, bound to a plain `this`, is left when `ConnectDestroyed` has run. -/
theorem stopRead_dangles :
    ∃ s, Run (fun s a s' => Step s a s' ∧ LeavesClosed s a)
        (TcpServer.new ⟨127, 0, 0, 1, 8000⟩ ['e', 'c', 'h', 'o'] false 1)
        [.newConnection 1 5 [], .functor 1 (.count 0) [],
          .event 1 .kReadEvent ⟨.received [], .count 0, [], []⟩, .functor 0 (.count 0) [],
          .callFromOther 1 .stopRead, .functor 1 (.count 0) []] s ∧
      s.queues 1 = [.connection 1 .stopReadInLoop] ∧ .connectDestroyed ∈ history s 1 := by
  have hok : (Run.exec (fun s a => Enabled s a ∧ LeavesClosed s a) perform
      (TcpServer.new ⟨127, 0, 0, 1, 8000⟩ ['e', 'c', 'h', 'o'] false 1)
      [.newConnection 1 5 [], .functor 1 (.count 0) [],
        .event 1 .kReadEvent ⟨.received [], .count 0, [], []⟩, .functor 0 (.count 0) [],
        .callFromOther 1 .stopRead, .functor 1 (.count 0) []]).map
      (fun s => (s.queues 1, decide (.connectDestroyed ∈ history s 1))) =
      some ([.connection 1 .stopReadInLoop], true) := by decide +kernel
  obtain ⟨s, hs, hq⟩ := Option.map_eq_some_iff.mp hok
  rw [Prod.mk.injEq, decide_eq_true_eq] at hq
  have hr := (Run.of_exec hs).mono (S := fun s a s' => Step s a s' ∧ LeavesClosed s a)
    fun _ _ _ h => ⟨⟨h.1.1, h.2⟩, h.1.2⟩
  exact ⟨s, hr, hq⟩

end RyanNetwork.Tcp.Lifetime
