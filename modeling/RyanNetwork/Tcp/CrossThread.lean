import RyanNetwork.Lib.Runs
import RyanNetwork.Tcp.Connection

/-!
# `Send` from another thread

The three overloads of `Send` over a memory of string and buffer objects. A
functor queued for the loop holds what `std::bind` stored: `Send(Buffer*)` binds
a copy of the bytes, `Send(const std::string&)` binds `c_str()` and `size()`, and
`Send(const void*, int)` goes through a local string that dies when it returns.
Next to every `SendInLoop`, queued or executed, stand the bytes its argument had
when `Send` was called.
-/
namespace RyanNetwork.Tcp.CrossThread

open Lib

set_option autoImplicit false

/-- An object of the caller. -/
inductive Object where
  | string (bytes : List UInt8)
  | buffer (b : Buffer)

/-- The bytes a pointer into the object can reach. -/
def Object.storage : Object → List UInt8
  | .string bytes => bytes
  | .buffer b => b.buffer

abbrev Memory := Nat → Option Object

/-- Reading `len` bytes from `offset` on; nothing for a dead object or beyond the
end of one. Reading no bytes touches no memory. -/
def Memory.read (m : Memory) (addr offset len : Nat) : Option (List UInt8) :=
  if len = 0 then some []
  else match m addr with
    | none => none
    | some o =>
      if offset + len ≤ o.storage.length then some ((o.storage.drop offset).take len) else none

/-- What a queued `SendInLoop` has bound. -/
inductive Bound where
  | message (bytes : List UInt8)
  | pointer (data len : Nat)

/-- The data with which the functor would execute now. -/
def Bound.data (m : Memory) : Bound → Option (List UInt8)
  | .message bytes => some bytes
  | .pointer data len => m.read data 0 len

structure Queued where
  bound : Bound
  given : List UInt8

structure Executed where
  given : List UInt8
  data : Option (List UInt8)
  deriving DecidableEq, Repr

/-- `sending` are the local strings of calls of `Send(const void*, int)` that have
not returned yet. -/
structure State where
  memory : Memory
  sending : List Nat
  world : World
  queue : List Queued
  executed : List Executed

namespace State

/-- `SendInLoop` starting with `data`; from invalid memory it takes unknown bytes. -/
def execute (s : State) (given : List UInt8) (data : Option (List UInt8)) (answer : WriteResult) :
    Except Fault State :=
  match data with
  | some bytes => do
    let w ← s.world.sendInLoop bytes answer
    return { s with world := w, executed := s.executed ++ [⟨given, some bytes⟩] }
  | none => .ok { s with executed := s.executed ++ [⟨given, none⟩] }

def queueInLoop (s : State) (given : List UInt8) (bound : Bound) : State :=
  { s with queue := s.queue ++ [⟨bound, given⟩] }

/-- `Send(const std::string&)`. -/
def sendString (s : State) (inLoop : Bool) (given : List UInt8) (buf : Nat) (answer : WriteResult) :
    Except Fault State :=
  match s.memory buf with
  | some (.string bytes) =>
    if s.world.conn.state = .kConnected then
      if inLoop then s.execute given (s.memory.read buf 0 bytes.length) answer
      else .ok (s.queueInLoop given (.pointer buf bytes.length))
    else .ok s
  | _ => .error .outOfBounds

/-- `Send(const void*, int)`, whose local string is placed at `message`. -/
def sendRaw (s : State) (inLoop : Bool) (given : List UInt8) (addr offset len message : Nat)
    (answer : WriteResult) : Except Fault State :=
  match s.memory.read addr offset len with
  | some bytes =>
    sendString { s with
      memory := Function.update s.memory message (some (.string bytes))
      sending := message :: s.sending } inLoop given message answer
  | none => .error .outOfBounds

/-- `Send(Buffer*)`. -/
def sendBuffer (s : State) (inLoop : Bool) (given : List UInt8) (buf : Nat)
    (answer : WriteResult) : Except Fault State :=
  match s.memory buf with
  | some (.buffer b) =>
    if s.world.conn.state = .kConnected then
      if inLoop then do
        let bytes ← b.contentToString
        let s ← s.execute given (some bytes) answer
        return { s with memory := Function.update s.memory buf (some (.buffer b.retrieveAll)) }
      else do
        let (bytes, b) ← b.retrieveAllAsString
        let s := { s with memory := Function.update s.memory buf (some (.buffer b)) }
        return s.queueInLoop given (.message bytes)
    else .ok s
  | _ => .error .outOfBounds

end State

/-- The argument of one call of `Send`. -/
inductive Argument where
  | string (buf : Nat)
  | raw (addr offset len message : Nat)
  | buffer (buf : Nat)

/-- The bytes of the argument. -/
def Argument.bytes (m : Memory) : Argument → Option (List UInt8)
  | .string buf =>
    match m buf with
    | some (.string bytes) => some bytes
    | _ => none
  | .raw addr offset len _ => m.read addr offset len
  | .buffer buf =>
    match m buf with
    | some (.buffer b) => b.contentToString.toOption
    | _ => none

def State.send (s : State) (inLoop : Bool) (given : List UInt8) (answer : WriteResult) :
    Argument → Except Fault State
  | .string buf => s.sendString inLoop given buf answer
  | .raw addr offset len message => s.sendRaw inLoop given addr offset len message answer
  | .buffer buf => s.sendBuffer inLoop given buf answer

/-! ## Interleavings -/

/-- Steps of the calling threads, and of the loop draining its functors. -/
inductive Action where
  | create (addr : Nat) (o : Object)
  | overwrite (addr : Nat) (o : Object)
  | destroy (addr : Nat)
  | send (inLoop : Bool) (arg : Argument) (answer : WriteResult)
  | sendReturns (message : Nat)
  | runFunctor (answer : WriteResult)

/-- A local string of `Send` lives at an address of its own. -/
def Argument.Fresh (m : Memory) : Argument → Prop
  | .raw _ _ _ message => m message = none
  | _ => True

def Step (s : State) : Action → State → Prop
  | .create addr o, t =>
    s.memory addr = none ∧ t = { s with memory := Function.update s.memory addr (some o) }
  | .overwrite addr o, t =>
    s.memory addr ≠ none ∧ t = { s with memory := Function.update s.memory addr (some o) }
  | .destroy addr, t =>
    addr ∉ s.sending ∧ t = { s with memory := Function.update s.memory addr none }
  | .send inLoop arg answer, t =>
    arg.Fresh s.memory ∧ ∃ given, arg.bytes s.memory = some given ∧
      s.send inLoop given answer arg = .ok t
  | .sendReturns message, t =>
    message ∈ s.sending ∧
      t = { s with
        memory := Function.update s.memory message none
        sending := s.sending.erase message }
  | .runFunctor answer, t =>
    ∃ q rest, s.queue = q :: rest ∧
      State.execute { s with queue := rest } q.given (q.bound.data s.memory) answer = .ok t

/-- No queued functor points at the object at `addr`, unless for no bytes. -/
def Unreferenced (s : State) (addr : Nat) : Prop :=
  ∀ q ∈ s.queue, ∀ len, q.bound = .pointer addr len → len = 0

/-- The object at `addr` keeps the bytes at which queued functors point. -/
def KeepsReferenced (s : State) (addr : Nat) (o : Object) : Prop :=
  ∀ q ∈ s.queue, ∀ len, q.bound = .pointer addr len →
    ∀ old, s.memory addr = some old → o.storage.take len = old.storage.take len

/-- The caller neither changes nor frees bytes at which a queued functor points;
in particular `Send(const void*, int)` does not return before its functor ran. -/
def Spares (s : State) : Action → Prop
  | .overwrite addr o => KeepsReferenced s addr o
  | .destroy addr => Unreferenced s addr
  | .sendReturns message => Unreferenced s message
  | _ => True

/-! ## Reading memory -/

/-- What can be read stays readable when a free address is filled. -/
theorem read_update_fresh {m : Memory} {addr new offset len : Nat} {o : Option Object}
    {bytes : List UInt8} (hn : m new = none) (h : m.read addr offset len = some bytes) :
    Memory.read (Function.update m new o) addr offset len = some bytes := by
  unfold Memory.read at h ⊢
  split at h
  · rename_i hz
    rw [if_pos hz]
    exact h
  · rename_i hz
    have hne : addr ≠ new := by
      rintro rfl
      rw [hn] at h
      cases h
    rw [if_neg hz, Function.update_of_ne hne]
    exact h

theorem data_update_fresh {m : Memory} {new : Nat} {o : Option Object} {b : Bound}
    {bytes : List UInt8} (hn : m new = none) (h : b.data m = some bytes) :
    b.data (Function.update m new o) = some bytes := by
  cases b with
  | message given => exact h
  | pointer data len => exact read_update_fresh hn h

/-- Replacing an object by one with the same storage changes no read. -/
theorem data_update_storage {m : Memory} {addr : Nat} {o o' : Object} (b : Bound)
    (ho : m addr = some o) (hs : o'.storage = o.storage) :
    b.data (Function.update m addr (some o')) = b.data m := by
  cases b with
  | message given => rfl
  | pointer data len =>
    simp only [Bound.data, Memory.read]
    by_cases he : data = addr
    · subst he
      rw [Function.update_self, ho]
      simp only [hs]
    · rw [Function.update_of_ne he]

theorem read_string {m : Memory} {buf : Nat} {bytes : List UInt8}
    (h : m buf = some (.string bytes)) : m.read buf 0 bytes.length = some bytes := by
  unfold Memory.read
  split
  · rename_i hz
    rw [List.eq_nil_of_length_eq_zero hz]
  · rw [h]
    simp [Object.storage]

/-- A read of a positive length found its bytes at the start of a live object. -/
theorem read_start {m : Memory} {addr len : Nat} {bytes : List UInt8}
    (h : m.read addr 0 len = some bytes) (hpos : len ≠ 0) :
    ∃ o, m addr = some o ∧ len ≤ o.storage.length ∧ bytes = o.storage.take len := by
  unfold Memory.read at h
  rw [if_neg hpos] at h
  cases ho : m addr with
  | none =>
    rw [ho] at h
    cases h
  | some o =>
    rw [ho] at h
    simp only [Nat.zero_add, List.drop_zero] at h
    split at h
    · rename_i hl
      cases h
      exact ⟨o, rfl, hl, rfl⟩
    · cases h

theorem read_of_start {m : Memory} {addr len : Nat} {o : Object} (ho : m addr = some o)
    (hl : len ≤ o.storage.length) : m.read addr 0 len = some (o.storage.take len) := by
  unfold Memory.read
  split
  · rename_i hz
    simp [hz]
  · simp [ho, hl]

/-- Reads elsewhere do not see an update. -/
theorem data_update_other {m : Memory} {addr : Nat} {o : Option Object} {b : Bound}
    (h : ∀ len, b = .pointer addr len → len = 0) :
    b.data (Function.update m addr o) = b.data m := by
  cases b with
  | message given => rfl
  | pointer data len =>
    simp only [Bound.data, Memory.read]
    by_cases he : data = addr
    · rw [if_pos (h len (by rw [he])), if_pos (h len (by rw [he]))]
    · rw [Function.update_of_ne he]

theorem retrieve_storage (b : Buffer) (n : Nat) : (b.retrieve n).buffer = b.buffer := by
  unfold Buffer.retrieve
  split
  · rfl
  · rfl

/-- The copied string is the content, and the buffer keeps its storage. -/
theorem retrieveAllAsString_ok {b b' : Buffer} {bytes : List UInt8}
    (h : b.retrieveAllAsString = .ok (bytes, b')) :
    b.contentToString = .ok bytes ∧ b'.buffer = b.buffer := by
  obtain ⟨r, hr, h⟩ := bind_ok h
  cases h
  exact ⟨hr, retrieve_storage b _⟩

/-! ## The invariant -/

/-- Every queued functor would execute now with the bytes of its call, and every
executed one did. -/
structure Faithful (s : State) : Prop where
  queued : ∀ q ∈ s.queue, q.bound.data s.memory = some q.given
  executed : ∀ e ∈ s.executed, e.data = some e.given

theorem execute_faithful {s t : State} {given : List UInt8} {answer : WriteResult}
    (hf : Faithful s) (h : s.execute given (some given) answer = .ok t) :
    Faithful t ∧ t.memory = s.memory := by
  obtain ⟨w, -, h⟩ := bind_ok h
  cases h
  refine ⟨⟨hf.queued, ?_⟩, rfl⟩
  intro e he
  rcases List.mem_append.mp he with hold | hnew
  · exact hf.executed e hold
  · rw [List.mem_singleton.mp hnew]

theorem queueInLoop_faithful {s : State} {given : List UInt8} {bound : Bound} (hf : Faithful s)
    (hb : bound.data s.memory = some given) : Faithful (s.queueInLoop given bound) := by
  refine ⟨?_, hf.executed⟩
  intro q hq
  rcases List.mem_append.mp hq with hold | hnew
  · exact hf.queued q hold
  · rw [List.mem_singleton.mp hnew]
    exact hb

/-- A change of memory that no queued functor notices. -/
theorem setMemory_faithful {s : State} {m : Memory} {sending : List Nat} (hf : Faithful s)
    (hm : ∀ q ∈ s.queue, q.bound.data m = q.bound.data s.memory) :
    Faithful { s with memory := m, sending := sending } :=
  ⟨fun q hq => (hm q hq).trans (hf.queued q hq), hf.executed⟩

theorem setFresh_faithful {s : State} {addr : Nat} {o : Object} {sending : List Nat}
    (hf : Faithful s) (hn : s.memory addr = none) :
    Faithful { s with memory := Function.update s.memory addr (some o), sending := sending } := by
  refine setMemory_faithful hf ?_
  intro q hq
  rw [hf.queued q hq]
  exact data_update_fresh hn (hf.queued q hq)

theorem sendString_faithful {s t : State} {inLoop : Bool} {given : List UInt8} {buf : Nat}
    {answer : WriteResult} (hf : Faithful s) (hb : s.memory buf = some (.string given))
    (h : s.sendString inLoop given buf answer = .ok t) : Faithful t := by
  unfold State.sendString at h
  rw [hb] at h
  dsimp only at h
  split at h
  · rw [read_string hb] at h
    split at h
    · exact (execute_faithful hf h).1
    · cases h
      exact queueInLoop_faithful hf (read_string hb)
  · cases h
    exact hf

theorem sendRaw_faithful {s t : State} {inLoop : Bool} {given : List UInt8}
    {addr offset len message : Nat} {answer : WriteResult} (hf : Faithful s)
    (hn : s.memory message = none) (hg : s.memory.read addr offset len = some given)
    (h : s.sendRaw inLoop given addr offset len message answer = .ok t) : Faithful t := by
  unfold State.sendRaw at h
  rw [hg] at h
  exact sendString_faithful (setFresh_faithful hf hn) (Function.update_self ..) h

theorem sendBuffer_faithful {s t : State} {inLoop : Bool} {given : List UInt8} {buf : Nat}
    {b : Buffer} {answer : WriteResult} (hf : Faithful s) (hb : s.memory buf = some (.buffer b))
    (hg : b.contentToString = .ok given)
    (h : s.sendBuffer inLoop given buf answer = .ok t) : Faithful t := by
  unfold State.sendBuffer at h
  rw [hb] at h
  dsimp only at h
  split at h
  · split at h
    · obtain ⟨bytes, hbytes, h⟩ := bind_ok h
      rw [hg] at hbytes
      cases hbytes
      obtain ⟨u, hu, h⟩ := bind_ok h
      obtain ⟨hfu, hmu⟩ := execute_faithful hf hu
      cases h
      refine setMemory_faithful hfu fun q _ => ?_
      rw [← hmu] at hb
      exact data_update_storage q.bound hb rfl
    · obtain ⟨⟨bytes, b'⟩, hr, h⟩ := bind_ok h
      obtain ⟨hbytes, hstore⟩ := retrieveAllAsString_ok hr
      rw [hg] at hbytes
      cases hbytes
      cases h
      refine queueInLoop_faithful (setMemory_faithful hf fun q _ => ?_) rfl
      exact data_update_storage q.bound hb hstore
  · cases h
    exact hf

theorem send_faithful {s t : State} {inLoop : Bool} {arg : Argument} {given : List UInt8}
    {answer : WriteResult} (hf : Faithful s) (hn : arg.Fresh s.memory)
    (hg : arg.bytes s.memory = some given) (h : s.send inLoop given answer arg = .ok t) :
    Faithful t := by
  cases arg with
  | string buf =>
    simp only [Argument.bytes] at hg
    split at hg
    · rename_i bytes hb
      cases hg
      exact sendString_faithful hf hb h
    · cases hg
  | raw addr offset len message => exact sendRaw_faithful hf hn hg h
  | buffer buf =>
    simp only [Argument.bytes] at hg
    split at hg
    · rename_i b hb
      refine sendBuffer_faithful hf hb ?_ h
      cases hc : b.contentToString with
      | error e =>
        rw [hc] at hg
        cases hg
      | ok bytes =>
        rw [hc] at hg
        cases hg
        rfl
    · cases hg

theorem keepsReferenced_faithful {s : State} {addr : Nat} {o : Object} (hf : Faithful s)
    (hk : KeepsReferenced s addr o) :
    Faithful { s with memory := Function.update s.memory addr (some o) } := by
  refine ⟨?_, hf.executed⟩
  intro q hq
  have hd := hf.queued q hq
  by_cases hp : ∃ len, q.bound = .pointer addr len ∧ len ≠ 0
  · obtain ⟨len, hb, hpos⟩ := hp
    rw [hb] at hd ⊢
    obtain ⟨old, ho, hl, hg⟩ := read_start hd hpos
    have hsame : o.storage.take len = q.given := (hk q hq len hb old ho).trans hg.symm
    have hlen : len ≤ o.storage.length := by
      have := congrArg List.length (hsame.trans hg)
      simp only [List.length_take] at this
      omega
    rw [← hsame]
    exact read_of_start (Function.update_self ..) hlen
  · rw [← hd]
    exact data_update_other fun len hb => not_not.mp fun hpos => hp ⟨len, hb, hpos⟩

/-- A step that spares the queued functors keeps the invariant. -/
theorem step_faithful {s t : State} {a : Action} (hf : Faithful s) (h : Step s a t)
    (hs : Spares s a) : Faithful t := by
  cases a with
  | create addr o =>
    obtain ⟨hn, rfl⟩ := h
    exact setFresh_faithful hf hn
  | overwrite addr o =>
    obtain ⟨-, rfl⟩ := h
    exact keepsReferenced_faithful hf hs
  | destroy addr =>
    obtain ⟨-, rfl⟩ := h
    exact setMemory_faithful hf fun q hq => data_update_other (hs q hq)
  | send inLoop arg answer =>
    obtain ⟨hn, given, hg, h⟩ := h
    exact send_faithful hf hn hg h
  | sendReturns message =>
    obtain ⟨-, rfl⟩ := h
    exact setMemory_faithful hf fun q hq => data_update_other (hs q hq)
  | runFunctor answer =>
    obtain ⟨q, rest, hq, h⟩ := h
    have hpop : Faithful { s with queue := rest } := by
      refine ⟨fun r hr => hf.queued r ?_, hf.executed⟩
      rw [hq]
      exact List.mem_cons_of_mem _ hr
    rw [hf.queued q (by rw [hq]; exact List.mem_cons_self)] at h
    exact (execute_faithful hpop h).1

theorem run_faithful {s t : State} {steps : List Action}
    (hr : Run (fun s a t => Step s a t ∧ Spares s a) s steps t) (hf : Faithful s) : Faithful t :=
  hr.invariant (P := Faithful) (fun _ _ _ hs h => step_faithful hs h.1 h.2) hf

/-- In every run whose caller steps spare the bytes at which queued functors
point, every `SendInLoop`, queued by another thread or called by the loop's own,
executes with exactly the bytes that the argument of its `Send` had at the call. -/
theorem sendInLoop_executes_given_bytes {s₀ s : State} {steps : List Action}
    (hq : s₀.queue = []) (he : s₀.executed = [])
    (hr : Run (fun s a t => Step s a t ∧ Spares s a) s₀ steps s) :
    ∀ e ∈ s.executed, e.data = some e.given := by
  refine (run_faithful hr ⟨?_, ?_⟩).executed
  · rw [hq]
    simp
  · rw [he]
    simp

/-- An established connection of a user without optional callbacks. -/
def connectedWorld : World where
  conn := { TcpConnection.new 1 5 false false 0 with
    state := .kConnected, channel := ⟨1, 5, .kReadEvent, kAdded⟩ }
  poller := ⟨fun fd => if fd = 5 then some 1 else none,
    fun fd => if fd = 5 then some .kReadEvent else none⟩
  pending := []
  trace := []

/-- The caller owns the string "hi" at address 7. -/
def callerWithString : State where
  memory := Function.update (fun _ => none) 7 (some (.string [104, 105]))
  sending := []
  world := connectedWorld
  queue := []
  executed := []

theorem sendInLoop_connectedWorld (bytes : List UInt8)
    (hok : (connectedWorld.sendInLoop bytes (.count 2)).toBool = true) (s : State)
    (hs : s.world = connectedWorld) (given : List UInt8) :
    ∃ t, s.execute given (some bytes) (.count 2) = .ok t ∧
      t.executed = s.executed ++ [⟨given, some bytes⟩] := by
  cases hw : connectedWorld.sendInLoop bytes (.count 2) with
  | error e =>
    rw [hw] at hok
    cases hok
  | ok w =>
    refine ⟨{ s with world := w, executed := s.executed ++ [⟨given, some bytes⟩] }, ?_, rfl⟩
    simp only [State.execute, hs, hw]
    rfl

/-- A string overwritten before the loop drains is sent with its new bytes. -/
theorem overwritten_string_run :
    ∃ s, Run Step callerWithString [.send false (.string 7) (.count 0),
        .overwrite 7 (.string [98, 121]), .runFunctor (.count 2)] s ∧
      s.executed = [⟨[104, 105], some [98, 121]⟩] := by
  obtain ⟨t, ht, he⟩ := sendInLoop_connectedWorld [98, 121] (by decide +kernel)
    { callerWithString with
      memory := Function.update callerWithString.memory 7 (some (.string [98, 121])) } rfl [104, 105]
  refine ⟨t, .cons ⟨trivial, [104, 105], rfl, rfl⟩
    (.cons ⟨?_, rfl⟩ (.single ⟨⟨.pointer 7 2, [104, 105]⟩, [], rfl, ht⟩)), he⟩
  simp [callerWithString, State.queueInLoop]

/-- `Send(const void*, int)` that returns before the loop drains leaves the queued
functor with a pointer into a destroyed string. -/
theorem returned_send_run :
    ∃ s, Run Step callerWithString [.send false (.raw 7 0 2 9) (.count 0),
        .sendReturns 9, .runFunctor (.count 2)] s ∧
      s.executed = [⟨[104, 105], none⟩] := by
  refine ⟨_, .cons ⟨by simp [Argument.Fresh, callerWithString], [104, 105], rfl, rfl⟩
    (.cons ⟨List.mem_cons_self, rfl⟩ (.single ⟨⟨.pointer 9 2, [104, 105]⟩, [], rfl, rfl⟩)), rfl⟩

/-- Two runs in which a queued `SendInLoop` does not execute with the given bytes. -/
theorem queued_sends_lose_their_bytes :
    (∃ s, Run Step callerWithString [.send false (.string 7) (.count 0),
        .overwrite 7 (.string [98, 121]), .runFunctor (.count 2)] s ∧
      ¬∀ e ∈ s.executed, e.data = some e.given) ∧
    ∃ s, Run Step callerWithString [.send false (.raw 7 0 2 9) (.count 0),
        .sendReturns 9, .runFunctor (.count 2)] s ∧
      ¬∀ e ∈ s.executed, e.data = some e.given := by
  obtain ⟨s, hs, he⟩ := overwritten_string_run
  obtain ⟨t, ht, he'⟩ := returned_send_run
  refine ⟨⟨s, hs, ?_⟩, t, ht, ?_⟩
  · rw [he]
    simp
  · rw [he']
    simp

/-- A string destroyed only after the loop has drained its functor. -/
theorem sendInLoop_executes_hi :
    ∃ s, Run (fun s a t => Step s a t ∧ Spares s a) callerWithString
        [.send false (.string 7) (.count 0), .runFunctor (.count 2), .destroy 7] s ∧
      s.executed = [⟨[104, 105], some [104, 105]⟩] ∧
      ∀ e ∈ s.executed, e.data = some e.given := by
  obtain ⟨t, ht, he⟩ := sendInLoop_connectedWorld [104, 105] (by decide +kernel)
    callerWithString rfl [104, 105]
  have hrest : t.queue = [] ∧ t.sending = [] := by
    obtain ⟨w, -, hw⟩ := bind_ok ht
    cases hw
    exact ⟨rfl, rfl⟩
  have hr : Run (fun s a t => Step s a t ∧ Spares s a) callerWithString
      [.send false (.string 7) (.count 0), .runFunctor (.count 2), .destroy 7]
      { t with memory := Function.update t.memory 7 none } := by
    refine .cons ⟨⟨trivial, [104, 105], rfl, rfl⟩, trivial⟩
      (.cons ⟨⟨⟨.pointer 7 2, [104, 105]⟩, [], rfl, ht⟩, trivial⟩ (.single ⟨⟨?_, rfl⟩, ?_⟩))
    · simp [hrest.2]
    · intro q hq
      simp [hrest.1] at hq
  exact ⟨_, hr, he, sendInLoop_executes_given_bytes rfl rfl hr⟩

end RyanNetwork.Tcp.CrossThread
