import RyanNetwork.Tcp.Stream

/-!
# High-watermark and write-complete notifications

`SendInLoop` and `HandleWrite` queue the two flow-control callbacks of the user.
A run from `ConnectEstablished` shows which steps queue which: a high-watermark
notice marks a send that takes the length of the output buffer over the mark, a
write-complete notice an output buffer that is empty because the kernel has
taken everything.
-/
namespace RyanNetwork.Tcp.FlowControl

open Lib World RyanNetwork.Tcp.Stream

set_option autoImplicit false

/-- The steps of an open connection, and the loop taking a functor from the queue. -/
inductive FlowStep where
  | stream (a : StreamStep)
  | dequeue

/-- One step. `SendInLoop` takes data of any length. -/
def Step (w : World) : FlowStep → World → Prop
  | .stream (.sendInLoop data answer), w' =>
    answer.Fits data.length ∧ w.sendInLoop data answer = .ok w'
  | .stream a, w' => Stream.Step w a w'
  | .dequeue, w' => ∃ f rest, w.pending = f :: rest ∧ w' = { w with pending := rest }

def acceptedBy (w : World) : FlowStep → List UInt8
  | .stream a => accepted w a
  | .dequeue => []

/-- A step together with the data accepted so far. -/
def StepAccepting (s : World × List UInt8) (a : FlowStep) (t : World × List UInt8) : Prop :=
  Step s.1 a t.1 ∧ t.2 = s.2 ++ acceptedBy s.1 a

def FlowStep.isSend : FlowStep → Bool
  | .stream (.sendInLoop _ _) => true
  | _ => false

def FlowStep.isHandleWrite : FlowStep → Bool
  | .stream (.handleWrite _) => true
  | _ => false

/-- The functors that a step has put behind the queue. -/
def queued (w w' : World) : List PendingFunctor := w'.pending.drop w.pending.length

/-- The lengths that the high-watermark notices among some functors carry. -/
def notices (fs : List PendingFunctor) : List Nat :=
  fs.filterMap fun
    | .highWatermark len => some len
    | _ => none

/-- The number of bytes that wait in the output buffer. -/
def waiting (w : World) : Nat := w.conn.outputBuffer.readableBytes

/-! ## What each operation queues -/

/-- The callbacks that are set, and the mark. -/
def settings (w : World) : Bool × Bool × Nat :=
  (w.conn.writeCompleteCallback, w.conn.highWatermarkCallback, w.conn.highWatermark)

theorem setOutput_settings (w : World) (b : Buffer) : settings (w.setOutput b) = settings w := by
  cases w; rfl

theorem onChannel_pending {w w' : World}
    {op : EpollPoller → Channel → Except Fault (EpollPoller × Channel)}
    (h : w.onChannel op = .ok w') : w'.pending = w.pending ∧
      w'.conn.outputBuffer = w.conn.outputBuffer ∧ settings w' = settings w := by
  obtain ⟨p, c, -, rfl⟩ := onChannel_ok h
  exact ⟨rfl, rfl, rfl⟩

theorem shutdownInLoop_pending (w : World) : w.shutdownInLoop.pending = w.pending := by
  unfold shutdownInLoop
  split
  · rfl
  · exact emit_pending ..

/-- The notice of a send that changes the length of the output buffer from `old` to `new`. -/
def crossing (c : TcpConnection) (old new : Nat) : List PendingFunctor :=
  if reachesHighWatermark c old new then [.highWatermark new] else []

theorem crossing_self (c : TcpConnection) (len : Nat) : crossing c len len = [] := by
  unfold crossing reachesHighWatermark
  rw [if_neg]
  simp only [Bool.and_eq_true, decide_eq_true_eq]
  rintro ⟨⟨hle, hlt⟩, -⟩
  omega

/-- The sum that `SendInLoop` announces is the length after the append. -/
theorem append_readableBytes {b c : Buffer} {data : List UInt8} (hv : b.Valid)
    (h : b.append data = .ok c) :
    SizeT.add b.readableBytes data.length = c.readableBytes := by
  obtain ⟨hc, hcont⟩ := Buffer.append_ok hv h
  have hlen := congrArg List.length hcont
  rw [List.length_append, Buffer.content_length hc, Buffer.content_length hv] at hlen
  have hr := Buffer.readableBytes_eq hc
  have hb := hc.bounded
  have hl := Buffer.length_lt hc
  rw [SizeT.add_exact (by omega), hlen]

/-- The tail of `SendInLoop` announces the length that the buffer has afterwards. -/
theorem bufferRemaining_pending {w w' : World} {data : List UInt8} {n : Nat}
    (hv : w.conn.outputBuffer.Valid)
    (h : w.bufferRemaining data n (data.length - n) = .ok w') :
    w'.pending = w.pending ++ crossing w.conn (waiting w) (waiting w') := by
  unfold bufferRemaining at h
  split at h
  · obtain ⟨b, hb, h⟩ := bind_ok h
    have hlen := append_readableBytes hv hb
    rw [List.length_take, List.length_drop, Nat.min_self] at hlen
    have hw' : w'.pending = w.pending ++ crossing w.conn (waiting w) b.readableBytes ∧
        w'.conn.outputBuffer = b := by
      rw [hlen] at h
      rcases onlyIf_ok h with ⟨-, h⟩ | ⟨-, rfl⟩
      · obtain ⟨hp, ho, -⟩ := onChannel_pending h
        rw [hp, ho, setOutput_pending, setOutput_output]
        exact ⟨queueIf_pending .., rfl⟩
      · rw [setOutput_pending, setOutput_output]
        exact ⟨queueIf_pending .., rfl⟩
    rw [hw'.1, waiting, waiting, hw'.2]
  · cases h
    rw [crossing_self, List.append_nil]

/-- A direct write queues a write-complete notice when it takes all of the data. -/
theorem afterWrite_pending {w w' : World} {data : List UInt8} {n : Nat}
    (hv : w.conn.outputBuffer.Valid) (hempty : waiting w = 0) (h : w.afterWrite data n = .ok w') :
    ∃ c : Bool, w'.pending = w.pending ++ (if c then [.writeComplete] else []) ++
        crossing w.conn (waiting w) (waiting w') ∧
      (c = true → w.conn.writeCompleteCallback = true ∧ waiting w' = 0) := by
  refine ⟨data.length - n == 0 && w.conn.writeCompleteCallback, ?_, ?_⟩
  · have hp := bufferRemaining_pending (by simpa using hv) h
    rw [queueIf_pending, queueIf_conn, emit_conn, waiting, queueIf_conn, emit_conn] at hp
    exact hp
  · intro hc
    rw [Bool.and_eq_true] at hc
    have hall : data.length - n = 0 := by simpa using hc.1
    unfold afterWrite bufferRemaining at h
    simp only [hall, Nat.lt_irrefl, ↓reduceIte] at h
    cases h
    refine ⟨hc.2, ?_⟩
    rw [waiting, queueIf_conn, emit_conn]
    exact hempty

/-- What `SendInLoop` queues: a write-complete notice only with nothing left to write,
and the notice of the mark. -/
theorem sendInLoop_pending {w w' : World} {data : List UInt8} {answer : WriteResult}
    (hv : w.conn.outputBuffer.Valid) (h : w.sendInLoop data answer = .ok w') :
    ∃ c : Bool, w'.pending = w.pending ++ (if c then [.writeComplete] else []) ++
        crossing w.conn (waiting w) (waiting w') ∧
      (c = true → w.conn.writeCompleteCallback = true ∧ waiting w' = 0) := by
  have hsame : w.pending = w.pending ++ (if false then [.writeComplete] else []) ++
      crossing w.conn (waiting w) (waiting w) := by simp [crossing_self]
  have hbuffered (h : w.bufferRemaining data 0 data.length = .ok w') :
      w'.pending = w.pending ++ (if false then [.writeComplete] else []) ++
        crossing w.conn (waiting w) (waiting w') := by
    rw [bufferRemaining_pending (n := 0) hv h]
    simp
  unfold World.sendInLoop at h
  split at h
  · cases h
    exact ⟨false, hsame, nofun⟩
  · split at h
    · rename_i hd
      have hempty : waiting w = 0 := by simpa [waiting] using (Bool.and_eq_true_iff.mp hd).2
      cases answer with
      | count n => exact afterWrite_pending hv hempty h
      | failed errno =>
        dsimp only at h
        split at h
        · cases h
          exact ⟨false, hsame, nofun⟩
        · exact ⟨false, hbuffered h, nofun⟩
    · exact ⟨false, hbuffered h, nofun⟩

theorem afterDrain_pending {w w' : World} (h : w.afterDrain = .ok w') :
    w'.pending = w.pending ++ (if w.conn.writeCompleteCallback then [.writeComplete] else []) ∧
      w'.conn.outputBuffer = w.conn.outputBuffer ∧ settings w' = settings w := by
  obtain ⟨v, hv, h⟩ := bind_ok h
  obtain ⟨hp, ho, hset⟩ := onChannel_pending hv
  have hflag : v.conn.writeCompleteCallback = w.conn.writeCompleteCallback :=
    congrArg Prod.fst hset
  cases h
  generalize hq : World.queueIf _ _ _ = u
  have hu : u.pending = w.pending ++
      (if w.conn.writeCompleteCallback then [.writeComplete] else []) ∧
      u.conn = v.conn := by
    rw [← hq, queueIf_pending, queueIf_conn, hflag, hp]
    exact ⟨rfl, rfl⟩
  have hend : settings u = settings w ∧ u.conn.outputBuffer = w.conn.outputBuffer := by
    rw [settings, hu.2]
    exact ⟨hset, ho⟩
  split
  · rw [shutdownInLoop_pending, settings, (shutdownInLoop_fields u).1]
    exact ⟨hu.1, hend.2, hend.1⟩
  · exact ⟨hu.1, hend.2, hend.1⟩

/-- What `HandleWrite` queues: a write-complete notice exactly when it empties the buffer. -/
theorem handleWrite_pending {w w' : World} {acc : List UInt8} {answer : WriteResult}
    (hs : Streaming w acc) (h : w.handleWrite answer = .ok w') :
    ∃ c : Bool, w'.pending = w.pending ++ (if c then [.writeComplete] else []) ∧
      (c = true ↔ w.conn.writeCompleteCallback = true ∧ waiting w ≠ 0 ∧ waiting w' = 0) := by
  rcases handleWrite_ok h with rfl | ⟨hw, offered, n, -, h⟩
  · refine ⟨false, (List.append_nil _).symm, ?_⟩
    simp
  · have hne : waiting w ≠ 0 := by
      rw [waiting, ne_eq, ← Buffer.content_eq_nil hs.valid]
      exact hs.writing.mp hw
    unfold World.drained at h
    dsimp only at h
    generalize hd : World.setOutput _ _ = v at h
    have hv : v.pending = w.pending ∧
        v.conn.writeCompleteCallback = w.conn.writeCompleteCallback := by
      rw [← hd, setOutput_pending, emit_pending]
      exact ⟨rfl, congrArg Prod.fst (setOutput_settings ..)⟩
    rcases onlyIf_ok h with ⟨hz, h⟩ | ⟨hz, rfl⟩
    · obtain ⟨hp, ho, -⟩ := afterDrain_pending h
      have hzero : waiting w' = 0 := by
        rw [waiting, ho]
        simpa using hz
      rw [hv.1, hv.2] at hp
      exact ⟨_, hp, fun hc => ⟨hc, hne, hzero⟩, fun hc => hc.1⟩
    · have hnz : waiting w' ≠ 0 := by simpa [waiting] using hz
      refine ⟨false, ?_, ?_⟩
      · rw [hv.1]
        exact (List.append_nil _).symm
      · simp [hnz]

/-! ## The settings stay as they are -/

theorem bufferRemaining_settings {w w' : World} {data : List UInt8} {n r : Nat}
    (h : w.bufferRemaining data n r = .ok w') : settings w' = settings w := by
  rcases bufferRemaining_ok h with rfl | ⟨b, c, len, v, rfl, h⟩
  · rfl
  · have hv : settings ((w.queueIf c (.highWatermark len)).setOutput b) = settings w := by
      rw [setOutput_settings, settings, queueIf_conn]
      rfl
    rcases h with rfl | h
    · exact hv
    · exact (onChannel_pending h).2.2.trans hv

theorem sendInLoop_settings {w w' : World} {data : List UInt8} {answer : WriteResult}
    (h : w.sendInLoop data answer = .ok w') : settings w' = settings w := by
  rcases sendInLoop_ok h with rfl | ⟨n, c, h⟩ | h
  · rfl
  · rw [bufferRemaining_settings h, settings, queueIf_conn, emit_conn]
    rfl
  · exact bufferRemaining_settings h

theorem handleWrite_settings {w w' : World} {answer : WriteResult}
    (h : w.handleWrite answer = .ok w') : settings w' = settings w := by
  rcases handleWrite_ok h with rfl | ⟨-, offered, n, -, h⟩
  · rfl
  · have hd : settings ((w.emit (.wrote (offered.take n))).setOutput
        (w.conn.outputBuffer.retrieve n)) = settings w := by
      rw [setOutput_settings, settings, emit_conn]
      rfl
    rcases onlyIf_ok h with ⟨-, h⟩ | ⟨-, rfl⟩
    · exact (afterDrain_pending h).2.2.trans hd
    · exact hd

theorem shutdown_settings {w w' : World} (h : w.call .shutdown = .ok w') :
    settings w' = settings w ∧ w'.pending = w.pending := by
  simp only [call] at h
  split at h
  · cases h
    rw [settings, (shutdownInLoop_fields _).1, shutdownInLoop_pending]
    exact ⟨rfl, rfl⟩
  · cases h
    exact ⟨rfl, rfl⟩

theorem shutdownFromOther_settings (w : World) :
    settings (w.callFromOther .shutdown) = settings w ∧
      ∃ c : Bool, (w.callFromOther .shutdown).pending =
        w.pending ++ if c then [.shutdownInLoop] else [] := by
  simp only [callFromOther]
  split
  · exact ⟨rfl, true, rfl⟩
  · exact ⟨rfl, false, (List.append_nil _).symm⟩

theorem step_settings {w w' : World} {a : FlowStep} (h : Step w a w') :
    settings w' = settings w := by
  cases a with
  | dequeue =>
    obtain ⟨f, rest, -, rfl⟩ := h
    rfl
  | stream a =>
    cases a with
    | sendInLoop data answer => exact sendInLoop_settings h.2
    | handleWrite answer => exact handleWrite_settings h.2
    | shutdown => exact (shutdown_settings h).1
    | shutdownFromOther =>
      cases h
      exact (shutdownFromOther_settings w).1
    | shutdownInLoop =>
      cases h
      rw [settings, (shutdownInLoop_fields w).1]
      rfl

theorem step_streaming {w w' : World} {acc : List UInt8} {a : FlowStep} (hs : Streaming w acc)
    (h : Step w a w') : Streaming w' (acc ++ acceptedBy w a) := by
  cases a with
  | dequeue =>
    obtain ⟨f, rest, -, rfl⟩ := h
    rw [acceptedBy, List.append_nil]
    exact ⟨hs.isOpen, hs.valid, hs.stream, hs.writing⟩
  | stream a =>
    cases a with
    | sendInLoop data answer => exact sendInLoop_streaming hs h.2
    | handleWrite answer => exact Stream.step_streaming (a := .handleWrite answer) hs h
    | shutdown => exact Stream.step_streaming (a := .shutdown) hs h
    | shutdownFromOther => exact Stream.step_streaming (a := .shutdownFromOther) hs h
    | shutdownInLoop => exact Stream.step_streaming (a := .shutdownInLoop) hs h

/-! ## Every step of a run -/

/-- What one step queues, on a connection with the given callbacks and mark that has
accepted the bytes `acc` after it. -/
structure Exact (writeComplete highWatermarkSet : Bool) (mark : Nat) (acc : List UInt8)
    (w : World) (a : FlowStep) (w' : World) : Prop where
  highWatermark : notices (queued w w') =
    if highWatermarkSet ∧ a.isSend ∧ waiting w < mark ∧ mark ≤ waiting w' then [waiting w'] else []
  complete : .writeComplete ∈ queued w w' →
    writeComplete = true ∧ waiting w' = 0 ∧ handed w'.trace = acc
  drained : a.isHandleWrite → writeComplete → waiting w ≠ 0 → waiting w' = 0 →
    .writeComplete ∈ queued w w'

theorem queued_of_append {w w' : World} {fs : List PendingFunctor}
    (h : w'.pending = w.pending ++ fs) : queued w w' = fs := by
  rw [queued, h, List.drop_left]

theorem streaming_handed {w : World} {acc : List UInt8} (hs : Streaming w acc)
    (hz : waiting w = 0) : handed w.trace = acc := by
  have hnil : w.conn.outputBuffer.content = [] := (Buffer.content_eq_nil hs.valid).mpr hz
  rw [← hs.stream, hnil, List.append_nil]

/-- A step that queues neither of the two notices is exact, unless it empties the buffer. -/
theorem exact_of_silent {writeComplete highWatermarkSet : Bool} {mark : Nat} {acc : List UInt8}
    {w w' : World} {a : FlowStep} (fs : List PendingFunctor)
    (hq : queued w w' = fs) (hmark : notices fs = []) (hcomplete : .writeComplete ∉ fs)
    (hsend : a.isSend = false) (hwrite : a.isHandleWrite = false) :
    Exact writeComplete highWatermarkSet mark acc w a w' := by
  refine ⟨?_, ?_, ?_⟩
  · rw [hq, hmark, hsend]
    simp
  · intro hm
    rw [hq] at hm
    exact absurd hm hcomplete
  · intro hb
    rw [hwrite] at hb
    cases hb

theorem sendInLoop_exact {writeComplete highWatermarkSet : Bool} {mark : Nat} {acc acc' : List UInt8}
    {w w' : World} {data : List UInt8} {answer : WriteResult}
    (hset : settings w = (writeComplete, highWatermarkSet, mark)) (hs : Streaming w acc)
    (hs' : Streaming w' acc') (h : w.sendInLoop data answer = .ok w') :
    Exact writeComplete highWatermarkSet mark acc' w (.stream (.sendInLoop data answer)) w' := by
  obtain ⟨hwc, hset⟩ := Prod.mk.inj hset
  obtain ⟨hhw, hmark⟩ := Prod.mk.inj hset
  obtain ⟨c, hp, hc⟩ := sendInLoop_pending hs.valid h
  rw [List.append_assoc] at hp
  have hq := queued_of_append hp
  refine ⟨?_, ?_, nofun⟩
  · have hcomplete : notices (if c then [.writeComplete] else []) = [] := by cases c <;> rfl
    rw [hq, notices, List.filterMap_append]
    change notices _ ++ notices _ = _
    rw [hcomplete, List.nil_append, crossing, reachesHighWatermark, hhw, hmark]
    simp only [Bool.and_eq_true, decide_eq_true_eq, FlowStep.isSend, true_and]
    by_cases hcross : highWatermarkSet = true ∧ waiting w < mark ∧ mark ≤ waiting w'
    · rw [if_pos ⟨⟨hcross.2.2, hcross.2.1⟩, hcross.1⟩, if_pos hcross]
      rfl
    · rw [if_neg (fun h => hcross ⟨h.2, h.1.2, h.1.1⟩), if_neg hcross]
      rfl
  · intro hm
    rw [hq, List.mem_append] at hm
    have hctrue : c = true := by
      cases c with
      | true => rfl
      | false =>
        rcases hm with hm | hm
        · cases hm
        · unfold crossing at hm
          split at hm
          · simp at hm
          · cases hm
    obtain ⟨hcb, hz⟩ := hc hctrue
    exact ⟨hwc.symm.trans hcb, hz, streaming_handed hs' hz⟩

theorem handleWrite_exact {writeComplete highWatermarkSet : Bool} {mark : Nat}
    {acc acc' : List UInt8} {w w' : World} {answer : WriteResult}
    (hset : settings w = (writeComplete, highWatermarkSet, mark)) (hs : Streaming w acc)
    (hs' : Streaming w' acc') (h : w.handleWrite answer = .ok w') :
    Exact writeComplete highWatermarkSet mark acc' w (.stream (.handleWrite answer)) w' := by
  have hwc : w.conn.writeCompleteCallback = writeComplete := congrArg Prod.fst hset
  obtain ⟨c, hp, hc⟩ := handleWrite_pending hs h
  have hq := queued_of_append hp
  rw [hwc] at hc
  refine ⟨?_, ?_, ?_⟩
  · rw [hq]
    cases c <;> simp [notices, FlowStep.isSend]
  · intro hm
    rw [hq] at hm
    have hctrue : c = true := by
      cases c with
      | true => rfl
      | false => cases hm
    obtain ⟨hcb, -, hz⟩ := hc.mp hctrue
    exact ⟨hcb, hz, streaming_handed hs' hz⟩
  · intro _ hcb hne hz
    rw [hq, hc.mpr ⟨hcb, hne, hz⟩]
    exact List.mem_singleton.mpr rfl

/-- What one step of an open connection queues. -/
theorem step_exact {writeComplete highWatermarkSet : Bool} {mark : Nat} {acc : List UInt8}
    {w w' : World} {a : FlowStep} (hset : settings w = (writeComplete, highWatermarkSet, mark))
    (hs : Streaming w acc) (h : Step w a w') :
    Exact writeComplete highWatermarkSet mark (acc ++ acceptedBy w a) w a w' := by
  have hs' := step_streaming hs h
  cases a with
  | dequeue =>
    obtain ⟨f, rest, hp, rfl⟩ := h
    refine exact_of_silent [] ?_ rfl (by simp) rfl rfl
    rw [queued, hp]
    exact List.drop_eq_nil_of_le (by simp)
  | stream a =>
    cases a with
    | sendInLoop data answer => exact sendInLoop_exact hset hs hs' h.2
    | handleWrite answer => exact handleWrite_exact hset hs hs' h.2
    | shutdown =>
      refine exact_of_silent [] (queued_of_append ?_) rfl (by simp) rfl rfl
      rw [(shutdown_settings h).2, List.append_nil]
    | shutdownFromOther =>
      cases h
      obtain ⟨c, hp⟩ := (shutdownFromOther_settings w).2
      refine exact_of_silent _ (queued_of_append hp) ?_ ?_ rfl rfl
      · cases c <;> rfl
      · cases c <;> simp
    | shutdownInLoop =>
      cases h
      refine exact_of_silent [] (queued_of_append ?_) rfl (by simp) rfl rfl
      rw [shutdownInLoop_pending, List.append_nil]

/-- The invariant of a run: the stream, and the settings it started with. -/
theorem run_streaming {st : Bool × Bool × Nat} {s t : World × List UInt8} {steps : List FlowStep}
    (hr : Run StepAccepting s steps t) (hs : Streaming s.1 s.2) (hset : settings s.1 = st) :
    Streaming t.1 t.2 ∧ settings t.1 = st := by
  refine hr.invariant (P := fun s => Streaming s.1 s.2 ∧ settings s.1 = st) ?_ ⟨hs, hset⟩
  rintro ⟨w, acc⟩ a ⟨w', acc'⟩ ⟨hi, hst⟩ ⟨hstep, hacc⟩
  cases hacc
  exact ⟨step_streaming hi hstep, (step_settings hstep).trans hst⟩

theorem established_settings {c : TcpConnection} {p : EpollPoller} {w : World}
    (h : connectEstablished ⟨c, p, [], []⟩ [] = .ok w) :
    settings w = (c.writeCompleteCallback, c.highWatermarkCallback, c.highWatermark) := by
  obtain ⟨v, hv, h⟩ := bind_ok h
  cases h
  rw [settings, emit_conn]
  exact (onChannel_pending hv).2.2

/-- In every run from `ConnectEstablished`, every step is exact: a high-watermark notice is
queued at the sends that take the waiting bytes from below the mark to at least the mark,
once and with the new length; a write-complete notice only when the buffer is empty and
everything accepted was handed over, and at every `HandleWrite` that empties the buffer.
So between two notices of the mark the length has been below it. -/
theorem flow_control_exact (addr : Nat) (sockfd : Int) (writeComplete highWatermarkSet : Bool)
    (highWatermark : Nat) (poller : EpollPoller) {w₀ : World} {steps : List FlowStep}
    {s t : World × List UInt8} {a : FlowStep}
    (h₀ : connectEstablished
      ⟨TcpConnection.new addr sockfd writeComplete highWatermarkSet highWatermark, poller, [], []⟩ []
      = .ok w₀)
    (hr : Run StepAccepting (w₀, []) steps s) (ha : StepAccepting s a t) :
    Exact writeComplete highWatermarkSet highWatermark t.2 s.1 a t.1 ∧
      ∀ more u b v, Run StepAccepting t more u → StepAccepting u b v →
        notices (queued u.1 v.1) ≠ [] → waiting u.1 < highWatermark := by
  have hexact (steps : List FlowStep) (s t : World × List UInt8) (a : FlowStep)
      (hr : Run StepAccepting (w₀, []) steps s) (ha : StepAccepting s a t) :
      Exact writeComplete highWatermarkSet highWatermark t.2 s.1 a t.1 := by
    obtain ⟨hs, hset⟩ := run_streaming hr (established_streaming rfl rfl h₀)
      (established_settings h₀)
    obtain ⟨hstep, hacc⟩ := ha
    rw [hacc]
    exact step_exact hset hs hstep
  refine ⟨hexact steps s t a hr ha, ?_⟩
  intro more u b v hmore hb hne
  have hx := (hexact _ u v b ((hr.snoc ha).append hmore) hb).highWatermark
  rw [hx] at hne
  split at hne
  · rename_i hcond
    exact hcond.2.2.1
  · exact absurd rfl hne

/-- Three bytes of which the kernel takes one, with the mark at two, and then the rest. -/
def drainRun : Except Fault (World × World × World) := do
  let w₀ ← connectEstablished
    ⟨TcpConnection.new 1 5 true true 2, ⟨fun _ => none, fun _ => none⟩, [], []⟩ []
  let w₁ ← w₀.sendInLoop [104, 105, 33] (.count 1)
  let w₂ ← w₁.handleWrite (.count 2)
  return (w₀, w₁, w₂)

theorem flow_control_of_drain :
    ∃ w₀ w₁ w₂, connectEstablished ⟨TcpConnection.new 1 5 true true 2,
        ⟨fun _ => none, fun _ => none⟩, [], []⟩ [] = .ok w₀ ∧
      Run StepAccepting (w₀, []) [.stream (.sendInLoop [104, 105, 33] (.count 1))]
        (w₁, [104, 105, 33]) ∧
      notices (queued w₀ w₁) = [2] ∧ queued w₁ w₂ = [.writeComplete] ∧
      Exact true true 2 [104, 105, 33] w₁ (.stream (.handleWrite (.count 2))) w₂ := by
  have hok : (drainRun.map fun s => (notices (queued s.1 s.2.1), queued s.2.1 s.2.2,
      waiting s.2.1)) = .ok ([2], [.writeComplete], 2) := by decide +kernel
  obtain ⟨s, hs, hok⟩ := ok_of_map hok
  obtain ⟨w₀, h₀, h⟩ := bind_ok hs
  obtain ⟨w₁, h₁, h⟩ := bind_ok h
  obtain ⟨w₂, h₂, h⟩ := bind_ok h
  cases h
  obtain ⟨hn, hok⟩ := Prod.mk.inj hok
  obtain ⟨hq, hw⟩ := Prod.mk.inj hok
  have hr : Run StepAccepting (w₀, []) [.stream (.sendInLoop [104, 105, 33] (.count 1))]
      (w₁, [104, 105, 33]) := by
    refine .single ⟨⟨by simp [WriteResult.Fits], h₁⟩, ?_⟩
    simp [acceptedBy, accepted, faultError]
  have ha : StepAccepting (w₁, [104, 105, 33]) (.stream (.handleWrite (.count 2)))
      (w₂, [104, 105, 33]) := by
    refine ⟨⟨?_, h₂⟩, rfl⟩
    change 2 ≤ waiting w₁
    exact Nat.le_of_eq hw.symm
  exact ⟨w₀, w₁, w₂, h₀, hr, hn, hq, (flow_control_exact 1 5 true true 2 _ h₀ hr ha).1⟩

end RyanNetwork.Tcp.FlowControl
