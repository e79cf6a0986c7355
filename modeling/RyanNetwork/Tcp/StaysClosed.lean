import RyanNetwork.Tcp.CloseOnce

/-!
# A closed connection stays out of the kernel's set

Between `HandleClose` and `ConnectDestroyed` the user may still call anything, and
functors queued before the close still run. `Send`, `Shutdown` and `ForceClose` look at
the state first. The two read switches do not: on a closed connection `StartReadInLoop`
registers the channel again, and so does `StopReadInLoop` while `reading_` is set, since
`UpdateChannel` adds every channel that is marked as deleted. The same addition turns
`DisableAll` into a registration when reading was stopped before the close.
-/
namespace RyanNetwork.Tcp.StaysClosed

open Lib World Callbacks Registration CloseOnce

set_option autoImplicit false

/-- Everything that can happen before `ConnectDestroyed`: any call on any thread, any
functor out of the queue, any event while the descriptor is watched. -/
def Possible (w : World) : Act → Prop
  | .event _ _ => Watched w
  | .call _ => True
  | .callFromOther _ => True
  | .functor f _ _ => f ∈ w.pending
  | .connectDestroyed _ => False

/-- The acts that leave a closed connection alone: `HandleClose` finds the channel
watched, and no read switch runs after its `DisableAll` save `StopRead` with `reading_`
cleared. -/
def LeavesAlone (w : World) : Act → Prop
  | .event revents a => CarefulEvent w revents a
  | .call c => w.conn.state = .kDisconnected → Quiet w [c]
  | .callFromOther _ => True
  | .functor f _ onRun => Careful w onRun f
  | .connectDestroyed _ => True

def Step (w : World) (a : Act) (w' : World) : Prop := Possible w a ∧ perform w a = .ok w'

instance (w : World) : DecidablePred (Possible w)
  | .event _ _ => inferInstanceAs (Decidable (Watched w))
  | .call _ => isTrue trivial
  | .callFromOther _ => isTrue trivial
  | .functor f _ _ => inferInstanceAs (Decidable (f ∈ w.pending))
  | .connectDestroyed _ => isFalse id

/-- Out of the kernel's set and without interest, so that no event is delivered, and
`ConnectDestroyed` meets the assertions of `RemoveChannel`. -/
structure Unregistered (w : World) : Prop where
  noEvent : w.conn.channel.events = Events.kNoneEvent
  unwatched : ¬Watched w
  removable : ∀ onDown, ∃ w', w.connectDestroyed onDown = .ok w' ∧ ¬Watched w'
  quiet : ∀ revents a, ¬Possible w (.event revents a)

def Phase (w : World) : Prop := Open w ∨ Detached w

theorem dequeue_phase {w : World} (f : PendingFunctor) (hp : Phase w) : Phase (dequeue w f) :=
  hp.imp (frame_open (frame_dequeue f)) (frame_detached (frame_dequeue f))

theorem callFromOther_detached {w : World} (c : Call) (hd : Detached w) :
    Detached (w.callFromOther c) := by
  have hs := callFromOther_shut c hd.toShut
  cases c with
  | send data answer => simpa [callFromOther, hd.closed] using hd
  | shutdown => simpa [callFromOther, hd.closed] using hd
  | forceClose => simpa [callFromOther, shut_not_open hd.toShut] using hd
  | startRead => exact ⟨hs, hd.index, hd.owned⟩
  | stopRead => exact ⟨hs, hd.index, hd.owned⟩

/-- Every act that leaves a closed connection alone keeps an open one open or closes it
for good. -/
theorem step_phase {w w' : World} {a : Act} (hp : Phase w) (hl : LeavesAlone w a)
    (h : Step w a w') : Phase w' := by
  obtain ⟨hposs, h⟩ := h
  cases a with
  | event revents a =>
    rcases hp with ho | hd
    · exact handleEvent_open ho hposs hl h
    · exact absurd hposs hd.unwatched
  | call c =>
    rcases hp with ho | hd
    · exact Or.inl (call_open ho h)
    · change w.call c = .ok w' at h
      rw [call_closed hd.closed hd.noEvent (hl hd.closed)] at h
      cases h
      exact Or.inr hd
  | callFromOther c =>
    cases h
    exact hp.imp (callFromOther_open c) (callFromOther_detached c)
  | functor f answer onRun =>
    have hl' : Careful (dequeue w f) onRun f := hl
    rcases dequeue_phase f hp with ho | hd
    · exact runFunctor_open ho hl' h
    · rcases runFunctor_closed hd.closed hd.noEvent hl' h with rfl | rfl
      · exact Or.inr hd
      · exact Or.inr (frame_detached (frame_emit _ rfl rfl) hd)
  | connectDestroyed onDown => exact absurd hposs id

theorem run_phase {w w' : World} {acts : List Act}
    (hr : Run (fun w a w' => Step w a w' ∧ LeavesAlone w a) w acts w') (hp : Phase w) : Phase w' :=
  hr.invariant (P := Phase) (fun _ _ _ hi hs => step_phase hi hs.2 hs.1) hp

/-- `ConnectDestroyed` of a detached connection takes its channel out of the table. -/
theorem detached_unregistered {w : World} (hd : Detached w) : Unregistered w := by
  refine ⟨hd.noEvent, hd.unwatched, ?_, fun _ _ => hd.unwatched⟩
  intro onDown
  have hskip := disconnect_closed onDown hd.closed
  exact ⟨removed w, connectDestroyed_removed hskip hd.index hd.owned hd.noEvent, hd.unwatched⟩

/-- In every run from `ConnectEstablished` whose acts leave a closed connection alone, the
connection is unregistered in every state after `HandleClose`. -/
theorem closed_stays_unregistered (addr : Nat) (sockfd : Int)
    (writeComplete highWatermarkSet : Bool) (highWatermark : Nat) (poller : EpollPoller)
    {onUp : List Call} {w₀ w : World} {acts : List Act}
    (h₀ : connectEstablished
      ⟨TcpConnection.new addr sockfd writeComplete highWatermarkSet highWatermark, poller, [], []⟩
      onUp = .ok w₀)
    (hr : Run (fun w a w' => Step w a w' ∧ LeavesAlone w a) w₀ acts w)
    (hclosed : .closeCallback ∈ w.trace) : Unregistered w := by
  rcases run_phase hr (Or.inl (connectEstablished_open rfl h₀)) with ho | hd
  · have hz : closeCalls w.trace = 0 := ho.closes
    exact absurd hclosed (List.count_eq_zero.mp hz)
  · exact detached_unregistered hd

/-- A connection on an empty poller, established. -/
def established : Except Fault World :=
  connectEstablished ⟨TcpConnection.new 1 5 true false 0, ⟨fun _ => none, fun _ => none⟩, [], []⟩ []

/-- The world after some acts on that connection. -/
def after (acts : List Act) : Option World :=
  established.toOption.bind fun w₀ => Run.exec Possible perform w₀ acts

theorem after_run {acts : List Act} {w₀ w : World} (h₀ : established = .ok w₀)
    (h : after acts = some w) : Run Step w₀ acts w := by
  rw [after, h₀] at h
  exact Run.of_exec h

/-- The peer closes its end. -/
def peerClose : Act := eventOf .kReadEvent (.received [])

/-- What the kernel watches for, and how often the connection was closed. -/
def registration (w : World) : Option Events × Nat :=
  (w.poller.interest w.conn.channel.fd, closeCalls w.trace)

theorem registration_seen (acts : List Act) (n : Nat) (e : Events)
    (h : (after acts).map registration = some (some e, n + 1)) :
    ∃ w, after acts = some w ∧ .closeCallback ∈ w.trace ∧ Watched w := by
  cases ha : after acts with
  | none =>
    rw [ha] at h
    cases h
  | some w =>
    rw [ha] at h
    obtain ⟨hi, hc⟩ := Prod.mk.inj (Option.some.inj h)
    refine ⟨w, rfl, List.count_pos_iff.mp ?_, ?_⟩
    · change 0 < closeCalls w.trace
      omega
    · unfold Watched
      rw [hi]
      exact Option.some_ne_none e

theorem established_ok : ∃ w₀, established = .ok w₀ := by
  have hok : established.map (fun _ => ()) = .ok () := by decide +kernel
  obtain ⟨w₀, h₀, -⟩ := ok_of_map hok
  exact ⟨w₀, h₀⟩

/-- The peer closes, and the user sends and shuts down afterwards. -/
theorem unregistered_after_late_calls :
    ∃ w₀ w, established = .ok w₀ ∧
      Run (fun w a w' => Step w a w' ∧ LeavesAlone w a) w₀
        [peerClose, .call (.send [104] (.count 1)), .callFromOther .shutdown] w ∧
      .closeCallback ∈ w.trace ∧ Unregistered w := by
  obtain ⟨w₀, h₀⟩ := established_ok
  have hseen : (after [peerClose, .call (.send [104] (.count 1)), .callFromOther .shutdown]).map
      (fun w => closeCalls w.trace) = some 1 := by decide +kernel
  obtain ⟨w, hw, hc⟩ := Option.map_eq_some_iff.mp hseen
  have hclosed : .closeCallback ∈ w.trace := List.count_pos_iff.mp (by
    change 0 < closeCalls w.trace
    omega)
  have hr : Run (fun w a w' => Step w a w' ∧ LeavesAlone w a) w₀
      [peerClose, .call (.send [104] (.count 1)), .callFromOther .shutdown] w := by
    cases after_run h₀ hw with
    | cons h1 hr =>
      cases hr with
      | cons h2 hr =>
        cases hr with
        | cons h3 hr =>
          cases hr
          refine .cons ⟨h1, ?_⟩ (.cons ⟨h2, fun _ => ?_⟩ (.single ⟨h3, trivial⟩))
          · exact ⟨⟨by simp, by simp⟩, fun _ _ => ⟨by simp, by simp⟩⟩
          · exact ⟨by simp, by simp⟩
  exact ⟨w₀, w, h₀, hr, hclosed, closed_stays_unregistered 1 5 true false 0 _ h₀ hr hclosed⟩

/-- Each of the read switches registers a closed connection again: `StartRead` and, with
`reading_` set, `StopRead` after the close, and `StopRead` before it. After `StartRead`
`ConnectDestroyed` fails the assertion of `RemoveChannel`. -/
theorem read_switches_register_again :
    ∃ w₀ started stopped early, established = .ok w₀ ∧
      Run Step w₀ [peerClose, .call .startRead] started ∧ .closeCallback ∈ started.trace ∧
      ¬Unregistered started ∧ started.connectDestroyed [] = .error .assertion ∧
      Run Step w₀ [peerClose, .call .stopRead] stopped ∧ .closeCallback ∈ stopped.trace ∧
      ¬Unregistered stopped ∧
      Run Step w₀ [.call .stopRead, .call .forceClose, .functor .forceCloseInLoop (.count 0) []]
        early ∧ .closeCallback ∈ early.trace ∧ ¬Unregistered early := by
  obtain ⟨w₀, h₀⟩ := established_ok
  obtain ⟨started, hs, hsc, hsw⟩ := registration_seen [peerClose, .call .startRead] 0
    .kReadEvent (by decide +kernel)
  obtain ⟨stopped, ht, htc, htw⟩ := registration_seen [peerClose, .call .stopRead] 0
    .kNoneEvent (by decide +kernel)
  obtain ⟨early, he, hec, hew⟩ := registration_seen
    [.call .stopRead, .call .forceClose, .functor .forceCloseInLoop (.count 0) []] 0 .kNoneEvent
    (by decide +kernel)
  have hfail : started.connectDestroyed [] = .error .assertion := by
    have hseen : (after [peerClose, .call .startRead]).map
        (fun w => (w.connectDestroyed []).map fun _ => ()) = some (.error .assertion) := by
      decide +kernel
    rw [hs] at hseen
    exact error_of_map (f := fun _ => ()) (Option.some.inj hseen)
  exact ⟨w₀, started, stopped, early, h₀, after_run h₀ hs, hsc, fun hu => hu.unwatched hsw, hfail,
    after_run h₀ ht, htc, fun hu => hu.unwatched htw, after_run h₀ he, hec,
    fun hu => hu.unwatched hew⟩

end RyanNetwork.Tcp.StaysClosed
