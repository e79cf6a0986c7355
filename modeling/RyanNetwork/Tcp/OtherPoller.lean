import RyanNetwork.Lib.Lockstep
import RyanNetwork.Net.Interest
import RyanNetwork.Tcp.Connection

/-!
# A connection on another poller

A connection asks its poller about its own descriptor only. Put on another poller that holds
its channel in the same state, it takes the same steps, and the other poller changes at its
descriptor alone.
-/
namespace RyanNetwork.Tcp.OtherPoller

open Lib Interest World

set_option autoImplicit false

/-! ## Operations of the channel -/

/-- What an operation makes of a channel that two pollers hold in the same state. -/
structure SameResult (c : Channel) (q : EpollPoller) (x y : EpollPoller × Channel) : Prop where
  same : y.2 = x.2
  fd : x.2.fd = c.fd
  addr : x.2.addr = c.addr
  alone : Registered x.1 x.2
  other : Registered y.1 x.2
  elsewhere : Elsewhere q y.1 c.fd

/-- The operation looks at the descriptor of its channel alone. -/
def Local (op : EpollPoller → Channel → Except Fault (EpollPoller × Channel)) : Prop :=
  ∀ p q c, Registered p c → Registered q c → Lockstep (SameResult c q) (op p c) (op q c)

theorem updateChannel_result {p q : EpollPoller} {c d : Channel}
    (h : p.updateChannel c = .ok (q, d)) :
    d = { c with index :=
      if c.index = kAdded ∧ c.events = Events.kNoneEvent then kDeleted else kAdded } := by
  have hnew : kNew ≠ kAdded := by decide
  have hdel : kDeleted ≠ kAdded := by decide
  rcases EpollPoller.updateChannel_cases h with h | h | h | h
  · obtain ⟨hi, -, -, -, rfl⟩ := h
    simp [hi, hnew]
  · obtain ⟨hi, -, -, -, rfl⟩ := h
    simp [hi, hdel]
  · obtain ⟨hi, -, he, -, rfl⟩ := h
    simp [hi, he]
  · obtain ⟨hi, -, he, -, -, rfl⟩ := h
    rw [if_neg fun hn => he hn.2, ← hi]

theorem removeChannel_result {p q : EpollPoller} {c d : Channel}
    (h : p.removeChannel c = .ok (q, d)) : d = { c with index := kNew } := by
  unfold EpollPoller.removeChannel at h
  split at h
  · split at h
    · obtain ⟨r, -, h⟩ := bind_ok h
      cases h
      rfl
    · cases h
      rfl
  · cases h

/-- On a poller that does not know the channel, `RemoveChannel` fails its assertions. -/
theorem removeChannel_new (p : EpollPoller) {c : Channel} (hi : c.index = kNew) :
    p.removeChannel c = .error .assertion := by
  have hadded : kNew ≠ kAdded := by decide
  have hdeleted : kNew ≠ kDeleted := by decide
  unfold EpollPoller.removeChannel
  rw [if_neg]
  rintro ⟨-, -, ha | hd⟩
  · exact hadded (hi.symm.trans ha)
  · exact hdeleted (hi.symm.trans hd)

theorem local_remove : Local Channel.remove := by
  intro p q c hp hq
  unfold Channel.remove
  by_cases hi : c.index = kNew
  · rw [removeChannel_new p hi, removeChannel_new q hi]
    exact .error _
  · by_cases he : c.events = Events.kNoneEvent
    · obtain ⟨p', d, hup, hrp, -, hfd, haddr, -⟩ := removeChannel_registered hp hi he
      obtain ⟨q', e, huq, hrq, helse, -⟩ := removeChannel_registered hq hi he
      have hsame : e = d := (removeChannel_result huq).trans (removeChannel_result hup).symm
      subst hsame
      rw [hup, huq]
      exact .ok ⟨rfl, hfd, haddr, hrp, hrq, helse⟩
    · rw [EpollPoller.removeChannel_interested he, EpollPoller.removeChannel_interested he]
      exact .error _

theorem local_apply (op : ChannelOp) : Local op.apply := by
  by_cases hop : op = .remove
  · subst hop
    exact local_remove
  · intro p q c hp hq
    rw [ChannelOp.apply_update hop, ChannelOp.apply_update hop]
    obtain ⟨p', d, hup, hrp, -, hfd, haddr, -⟩ :=
      updateChannel_registered (c := { c with events := op.mask c.events }) c.events hp
    obtain ⟨q', e, huq, hrq, helse, -⟩ :=
      updateChannel_registered (c := { c with events := op.mask c.events }) c.events hq
    have hsame : e = d := (updateChannel_result huq).trans (updateChannel_result hup).symm
    subst hsame
    rw [hup, huq]
    exact .ok ⟨rfl, hfd, haddr, hrp, hrq, helse⟩

/-! ## Steps of the connection -/

/-- The poller `q` holds the channel of `w` as its own one does, and elsewhere it is `p`. -/
structure Beside (addr : Nat) (fd : Int) (p : EpollPoller) (w : World) (q : EpollPoller) :
    Prop where
  addr_eq : w.conn.channel.addr = addr
  fd_eq : w.conn.channel.fd = fd
  alone : Registered w.poller w.conn.channel
  other : Registered q w.conn.channel
  elsewhere : Elsewhere p q fd

/-- `v` is `w` on another poller. -/
def Alongside (addr : Nat) (fd : Int) (p : EpollPoller) (w v : World) : Prop :=
  ∃ q, v = { w with poller := q } ∧ Beside addr fd p w q

section Steps

variable {addr : Nat} {fd : Int} {p : EpollPoller} {w v : World}

/-- A change of the connection that leaves its channel and the poller alone. -/
theorem Alongside.map (h : Alongside addr fd p w v) (g : World → World)
    (hg : ∀ w q, g { w with poller := q } = { g w with poller := q })
    (hc : ∀ w, (g w).conn.channel = w.conn.channel) (hp : ∀ w, (g w).poller = w.poller) :
    Alongside addr fd p (g w) (g v) := by
  obtain ⟨q, rfl, hb⟩ := h
  refine ⟨q, hg w q, ?_, ?_, ?_, ?_, hb.elsewhere⟩
  · rw [hc]
    exact hb.addr_eq
  · rw [hc]
    exact hb.fd_eq
  · rw [hc, hp]
    exact hb.alone
  · rw [hc]
    exact hb.other

theorem alongside_onChannel {op : EpollPoller → Channel → Except Fault (EpollPoller × Channel)}
    (hop : Local op) (h : Alongside addr fd p w v) :
    Lockstep (Alongside addr fd p) (w.onChannel op) (v.onChannel op) := by
  obtain ⟨q, rfl, hb⟩ := h
  refine (hop w.poller q w.conn.channel hb.alone hb.other).bind ?_
  rintro ⟨p', d⟩ ⟨q', e⟩ hr
  obtain ⟨rfl, hfd, haddr, halone, hother, helse⟩ := hr
  refine .ok ⟨q', rfl, haddr.trans hb.addr_eq, hfd.trans hb.fd_eq, halone, hother, ?_⟩
  intro k hk
  obtain ⟨hc, hi⟩ := helse k (hb.fd_eq ▸ hk)
  obtain ⟨hc', hi'⟩ := hb.elsewhere k hk
  exact ⟨hc.trans hc', hi.trans hi'⟩

theorem alongside_emit (e : Effect) (h : Alongside addr fd p w v) :
    Alongside addr fd p (w.emit e) (v.emit e) :=
  h.map (·.emit e) (fun _ _ => rfl) (fun _ => rfl) fun _ => rfl

theorem alongside_setState (s : StateE) (h : Alongside addr fd p w v) :
    Alongside addr fd p (w.setState s) (v.setState s) :=
  h.map (·.setState s) (fun _ _ => rfl) (fun _ => rfl) fun _ => rfl

theorem alongside_setOutput (b : Buffer) (h : Alongside addr fd p w v) :
    Alongside addr fd p (w.setOutput b) (v.setOutput b) :=
  h.map (·.setOutput b) (fun _ _ => rfl) (fun _ => rfl) fun _ => rfl

theorem alongside_setReading (r : Bool) (h : Alongside addr fd p w v) :
    Alongside addr fd p (w.setReading r) (v.setReading r) :=
  h.map (·.setReading r) (fun _ _ => rfl) (fun _ => rfl) fun _ => rfl

theorem alongside_queueInLoop (f : PendingFunctor) (h : Alongside addr fd p w v) :
    Alongside addr fd p (w.queueInLoop f) (v.queueInLoop f) :=
  h.map (·.queueInLoop f) (fun _ _ => rfl) (fun _ => rfl) fun _ => rfl

theorem alongside_queueIf (c : Bool) (f : PendingFunctor) (h : Alongside addr fd p w v) :
    Alongside addr fd p (w.queueIf c f) (v.queueIf c f) := by
  cases c with
  | true => exact alongside_queueInLoop f h
  | false => exact h

theorem alongside_conn (h : Alongside addr fd p w v) : v.conn = w.conn := by
  obtain ⟨q, rfl, -⟩ := h
  rfl

theorem alongside_isOpen (h : Alongside addr fd p w v) : v.isOpen = w.isOpen := by
  obtain ⟨q, rfl, -⟩ := h
  rfl

theorem alongside_onlyIf {f : World → Except Fault World} (c : Bool)
    (h : Alongside addr fd p w v) (hf : Lockstep (Alongside addr fd p) (f w) (f v)) :
    Lockstep (Alongside addr fd p) (w.onlyIf c f) (v.onlyIf c f) := by
  cases c with
  | true => exact hf
  | false => exact .ok h

theorem alongside_shutdownInLoop (h : Alongside addr fd p w v) :
    Alongside addr fd p w.shutdownInLoop v.shutdownInLoop := by
  unfold World.shutdownInLoop
  rw [alongside_conn h]
  split
  · exact h
  · exact alongside_emit _ h

theorem alongside_bufferRemaining (data : List UInt8) (n r : Nat) (h : Alongside addr fd p w v) :
    Lockstep (Alongside addr fd p) (w.bufferRemaining data n r) (v.bufferRemaining data n r) := by
  unfold World.bufferRemaining
  rw [alongside_conn h]
  refine .ite (fun _ => .bind_same fun b => ?_) fun _ => .ok h
  have hq := alongside_setOutput b (alongside_queueIf (reachesHighWatermark w.conn
    w.conn.outputBuffer.readableBytes (SizeT.add w.conn.outputBuffer.readableBytes r))
    (.highWatermark (SizeT.add w.conn.outputBuffer.readableBytes r)) h)
  dsimp only
  rw [alongside_conn hq]
  exact alongside_onlyIf _ hq (alongside_onChannel (local_apply .enableWriting) hq)

theorem alongside_sendInLoop (data : List UInt8) (answer : WriteResult)
    (h : Alongside addr fd p w v) :
    Lockstep (Alongside addr fd p) (w.sendInLoop data answer) (v.sendInLoop data answer) := by
  have hbuffer := alongside_bufferRemaining data 0 data.length h
  unfold World.sendInLoop World.writesDirectly
  rw [alongside_conn h]
  refine .ite (fun _ => .ok h) fun _ => .ite (fun _ => ?_) fun _ => hbuffer
  cases answer with
  | count n =>
    change Lockstep _ (w.afterWrite data n) (v.afterWrite data n)
    unfold World.afterWrite
    rw [alongside_conn h]
    exact alongside_bufferRemaining _ _ _ (alongside_queueIf _ _ (alongside_emit _ h))
  | failed errno => exact .ite (fun _ => .ok h) fun _ => hbuffer

theorem alongside_startReadInLoop (h : Alongside addr fd p w v) :
    Lockstep (Alongside addr fd p) w.startReadInLoop v.startReadInLoop := by
  unfold World.startReadInLoop
  rw [alongside_conn h]
  refine .ite (fun _ => ?_) fun _ => .ok h
  refine (alongside_onChannel (local_apply .enableReading) h).bind fun w' v' h' => ?_
  exact .ok (alongside_setReading true h')

theorem alongside_stopReadInLoop (h : Alongside addr fd p w v) :
    Lockstep (Alongside addr fd p) w.stopReadInLoop v.stopReadInLoop := by
  unfold World.stopReadInLoop
  rw [alongside_conn h]
  refine .ite (fun _ => ?_) fun _ => .ok h
  refine (alongside_onChannel (local_apply .disableReading) h).bind fun w' v' h' => ?_
  exact .ok (alongside_setReading false h')

theorem alongside_call (c : Call) (h : Alongside addr fd p w v) :
    Lockstep (Alongside addr fd p) (w.call c) (v.call c) := by
  cases c with
  | send data answer =>
    simp only [World.call]
    rw [alongside_conn h]
    exact .ite (fun _ => alongside_sendInLoop data answer h) fun _ => .ok h
  | shutdown =>
    simp only [World.call]
    rw [alongside_conn h]
    exact .ite (fun _ => .ok (alongside_shutdownInLoop (alongside_setState _ h))) fun _ => .ok h
  | forceClose =>
    simp only [World.call]
    rw [alongside_isOpen h]
    exact .ite (fun _ => .ok (alongside_queueInLoop _ (alongside_setState _ h))) fun _ => .ok h
  | startRead => exact alongside_startReadInLoop h
  | stopRead => exact alongside_stopReadInLoop h

theorem alongside_callFromOther (c : Call) (h : Alongside addr fd p w v) :
    Alongside addr fd p (w.callFromOther c) (v.callFromOther c) := by
  cases c with
  | send data answer =>
    simp only [World.callFromOther]
    rw [alongside_conn h]
    split
    · exact alongside_queueInLoop _ h
    · exact h
  | shutdown =>
    simp only [World.callFromOther]
    rw [alongside_conn h]
    split
    · exact alongside_queueInLoop _ (alongside_setState _ h)
    · exact h
  | forceClose =>
    simp only [World.callFromOther]
    rw [alongside_isOpen h]
    split
    · exact alongside_queueInLoop _ (alongside_setState _ h)
    · exact h
  | startRead => exact alongside_queueInLoop _ h
  | stopRead => exact alongside_queueInLoop _ h

theorem alongside_calls (cs : List Call) (h : Alongside addr fd p w v) :
    Lockstep (Alongside addr fd p) (w.calls cs) (v.calls cs) := by
  induction cs generalizing w v with
  | nil => exact .ok h
  | cons c cs ih => exact (alongside_call c h).bind fun w' v' h' => ih h'

/-- The part that opening and closing share: the state, the channel, the callback. -/
theorem alongside_notify {op : EpollPoller → Channel → Except Fault (EpollPoller × Channel)}
    (hop : Local op) (s : StateE) (cs : List Call) (h : Alongside addr fd p w v) :
    Lockstep (Alongside addr fd p)
      ((w.setState s).onChannel op >>= fun u =>
        (u.emit (.connectionCallback u.conn.state)).calls cs)
      ((v.setState s).onChannel op >>= fun u =>
        (u.emit (.connectionCallback u.conn.state)).calls cs) := by
  refine (alongside_onChannel hop (alongside_setState s h)).bind fun w' v' h' => ?_
  rw [alongside_conn h']
  exact alongside_calls cs (alongside_emit _ h')

theorem alongside_connectEstablished (onUp : List Call) (h : Alongside addr fd p w v) :
    Lockstep (Alongside addr fd p) (w.connectEstablished onUp) (v.connectEstablished onUp) :=
  alongside_notify (local_apply .enableReading) _ onUp h

theorem alongside_handleClose (onDown : List Call) (h : Alongside addr fd p w v) :
    Lockstep (Alongside addr fd p) (w.handleClose onDown) (v.handleClose onDown) := by
  unfold World.handleClose
  rw [alongside_isOpen h]
  refine .ite (fun _ => ?_) fun _ => .error _
  refine (alongside_onChannel (local_apply .disableAll)
    (alongside_setState .kDisconnected h)).bind fun w' v' h' => ?_
  rw [alongside_conn h']
  refine (alongside_calls onDown (alongside_emit _ h')).bind fun w' v' h' => ?_
  exact .ok (alongside_emit _ h')

theorem alongside_connectDestroyed (onDown : List Call) (h : Alongside addr fd p w v) :
    Lockstep (Alongside addr fd p) (w.connectDestroyed onDown) (v.connectDestroyed onDown) := by
  have hdis : Lockstep (Alongside addr fd p) (w.disconnect onDown) (v.disconnect onDown) := by
    unfold World.disconnect
    rw [alongside_conn h]
    exact .ite (fun _ => alongside_notify (local_apply .disableAll) _ onDown h) fun _ => .ok h
  exact hdis.bind fun w' v' h' => alongside_onChannel local_remove h'

theorem alongside_handleRead (answer : Buffer.ReadResult) (onMessage onDown : List Call)
    (h : Alongside addr fd p w v) :
    Lockstep (Alongside addr fd p) (w.handleRead answer onMessage onDown)
      (v.handleRead answer onMessage onDown) := by
  cases answer with
  | failed errno => exact .ok h
  | received data =>
    cases data with
    | nil => exact alongside_handleClose onDown h
    | cons d data =>
      simp only [World.handleRead]
      rw [alongside_conn h]
      refine .bind_same fun b => alongside_calls onMessage (alongside_emit _ ?_)
      exact h.map (·.setInput b) (fun _ _ => rfl) (fun _ => rfl) fun _ => rfl

theorem alongside_afterDrain (h : Alongside addr fd p w v) :
    Lockstep (Alongside addr fd p) w.afterDrain v.afterDrain := by
  refine (alongside_onChannel (local_apply .disableWriting) h).bind fun w' v' h' => ?_
  dsimp only
  rw [alongside_conn h']
  have hq := alongside_queueIf w'.conn.writeCompleteCallback .writeComplete h'
  rw [alongside_conn hq]
  split
  · exact .ok (alongside_shutdownInLoop hq)
  · exact .ok hq

theorem alongside_handleWrite (answer : WriteResult) (h : Alongside addr fd p w v) :
    Lockstep (Alongside addr fd p) (w.handleWrite answer) (v.handleWrite answer) := by
  unfold World.handleWrite
  rw [alongside_conn h]
  refine .ite (fun _ => .bind_same fun offered => ?_) fun _ => .ok h
  cases answer with
  | failed errno => exact .ok h
  | count n =>
    refine .ite (fun _ => ?_) fun _ => .ok h
    unfold World.drained
    rw [alongside_conn h]
    have hd := alongside_setOutput (w.conn.outputBuffer.retrieve n)
      (alongside_emit (.wrote (offered.take n)) h)
    exact alongside_onlyIf _ hd (alongside_afterDrain hd)

theorem alongside_handleEvent (revents : Events) (a : Answers) (h : Alongside addr fd p w v) :
    Lockstep (Alongside addr fd p) (w.handleEvent revents a) (v.handleEvent revents a) := by
  refine (alongside_onlyIf _ h (alongside_handleClose a.onDown h)).bind fun w' v' h' => ?_
  refine (alongside_onlyIf _ h' (alongside_handleRead _ _ _ h')).bind fun w' v' h' => ?_
  exact alongside_onlyIf _ h' (alongside_handleWrite a.write h')

theorem alongside_runFunctor (answer : WriteResult) (onRun : List Call) (f : PendingFunctor)
    (h : Alongside addr fd p w v) :
    Lockstep (Alongside addr fd p) (w.runFunctor answer onRun f) (v.runFunctor answer onRun f) := by
  cases f with
  | sendInLoop message => exact alongside_sendInLoop message answer h
  | shutdownInLoop => exact .ok (alongside_shutdownInLoop h)
  | forceCloseInLoop =>
    simp only [World.runFunctor, World.forceCloseInLoop]
    rw [alongside_isOpen h]
    exact .ite (fun _ => alongside_handleClose onRun h) fun _ => .ok h
  | startReadInLoop => exact alongside_startReadInLoop h
  | stopReadInLoop => exact alongside_stopReadInLoop h
  | writeComplete => exact alongside_calls onRun h
  | highWatermark len => exact alongside_calls onRun h

end Steps

end RyanNetwork.Tcp.OtherPoller
