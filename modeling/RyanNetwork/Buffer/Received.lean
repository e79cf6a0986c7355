import RyanNetwork.Lib.Runs
import RyanNetwork.Buffer.ByteQueue

/-!
# Bytes received through `ReadFd`

`readv` gets the writable region and, while that is smaller than the stack buffer,
the stack buffer behind it. A run of `ReadFd` and `Retrieve` calls keeps the bytes in
order: those retrieved, followed by those still readable, are the ones that the
buffer held at first followed by the ones received.
-/
namespace RyanNetwork.Buffer.Received

open Lib

set_option autoImplicit false

/-- The sum of the `iov_len` passed to `readv`. -/
def iovTotal (b : Buffer) : Nat :=
  if b.writableBytes < extrabufSize then b.writableBytes + extrabufSize else b.writableBytes

/-- `readv` stores no more bytes than the iovecs hold. -/
def Admits (b : Buffer) : ReadResult → Prop
  | .received data => data.length ≤ iovTotal b
  | .failed _ => True

/-- What `ReadFd` leaves behind: its return value, `*saveErrno` and the buffer. -/
structure ReadFdReturn where
  n : Int
  saveErrno : Nat
  buffer : Buffer
  deriving DecidableEq

/-- `ReadFd(fd, saveErrno)` with the return value and the error number. -/
def readFdReturning (b : Buffer) (saveErrno : Nat) (answer : ReadResult) :
    Except Fault ReadFdReturn := do
  let c ← b.readFd answer
  match answer with
  | .failed errno => return ⟨-1, errno, c⟩
  | .received data => return ⟨data.length, saveErrno, c⟩

/-- The buffers that a program can hold: constructed, and then changed by calls that
keep to the limits of the class. -/
inductive Reachable : Buffer → Prop where
  | new {initialSize : Nat} {b : Buffer} (hs : kCheapPrepend + initialSize < 2 ^ 64)
      (hb : Buffer.new initialSize = .ok b) : Reachable b
  | call {b c : Buffer} {op : ByteQueue.Op} (hb : Reachable b) (ha : op.Allowed b)
      (hc : op.apply b = .ok c) : Reachable c
  | readFd {b c : Buffer} {answer : ReadResult} (hb : Reachable b) (ha : Admits b answer)
      (hc : b.readFd answer = .ok c) : Reachable c

/-- A buffer with what has gone through it. -/
structure Intake where
  buffer : Buffer
  saveErrno : Nat
  received : List UInt8
  retrieved : List UInt8
  deriving DecidableEq

/-- A buffer before the calls of a run. -/
def Intake.start (b : Buffer) : Intake := ⟨b, 0, [], []⟩

inductive Action where
  | readFd (answer : ReadResult)
  | retrieve (len : Nat)
  deriving DecidableEq

def Action.Admitted (s : Intake) : Action → Prop
  | .readFd answer => Admits s.buffer answer
  | .retrieve _ => True

/-- The bytes that an answer of `readv` delivers. -/
def delivered : ReadResult → List UInt8
  | .received data => data
  | .failed _ => []

/-- One call. `Retrieve(len)` takes at most what is readable. -/
def perform (s : Intake) : Action → Except Fault Intake
  | .readFd answer => do
    let r ← readFdReturning s.buffer s.saveErrno answer
    return { s with
      buffer := r.buffer, saveErrno := r.saveErrno, received := s.received ++ delivered answer }
  | .retrieve len =>
    .ok { s with
      buffer := s.buffer.retrieve len, retrieved := s.retrieved ++ s.buffer.content.take len }

/-- A call that throws is not a step. -/
def Step (s : Intake) (a : Action) (t : Intake) : Prop := a.Admitted s ∧ perform s a = .ok t

instance (b : Buffer) : DecidablePred (Admits b)
  | .received _ => inferInstanceAs (Decidable (_ ≤ _))
  | .failed _ => isTrue trivial

instance (s : Intake) : DecidablePred (Action.Admitted s)
  | .readFd answer => inferInstanceAs (Decidable (Admits s.buffer answer))
  | .retrieve _ => isTrue trivial

/-- Whatever `readv` answers, `ReadFd` appends just that, or throws `length_error`. -/
theorem readFd_admitted {b : Buffer} (h : b.Valid) {answer : ReadResult} (ha : Admits b answer) :
    Outcome (b.readFd answer) (fun c => c.Valid ∧ c.content = b.content ++ delivered answer)
      (· = .lengthError) := by
  cases answer with
  | failed errno => exact Outcome.ok ⟨h, (List.append_nil _).symm⟩
  | received data =>
    have hle : data.length ≤ iovTotal b := ha
    refine readFd_spec h ?_
    unfold iovTotal at hle
    split at hle
    · exact hle
    · omega

theorem reachable_valid {b : Buffer} (hr : Reachable b) : b.Valid := by
  induction hr with
  | new hs hb => exact (new_spec hs hb).1
  | call hb ha hc ih => exact ((ByteQueue.Op.apply_spec ih _ ha).of_ok hc).1
  | readFd hb ha hc ih => exact ((readFd_admitted ih ha).of_ok hc).1

/-- What `ReadFd` returns is the answer of `readv`; on `-1` only the error number changes. -/
theorem readFdReturning_ok {b : Buffer} {saveErrno : Nat} {answer : ReadResult} {r : ReadFdReturn}
    (h : readFdReturning b saveErrno answer = .ok r) : b.readFd answer = .ok r.buffer ∧
      (r.n = -1 → r.buffer = b ∧ answer = .failed r.saveErrno) := by
  obtain ⟨c, hc, h⟩ := bind_ok h
  cases answer with
  | failed errno =>
    cases h
    cases hc
    exact ⟨rfl, fun _ => ⟨rfl, rfl⟩⟩
  | received data =>
    cases h
    refine ⟨hc, fun hn => ?_⟩
    have hpos : (0 : Int) ≤ data.length := Int.natCast_nonneg _
    change (data.length : Int) = -1 at hn
    omega

/-- The bytes that were there at first and those received since are the ones retrieved
followed by the readable ones. -/
structure Conserved (initial : List UInt8) (s : Intake) : Prop where
  valid : s.buffer.Valid
  stream : s.retrieved ++ s.buffer.content = initial ++ s.received

theorem step_conserved {initial : List UInt8} {s t : Intake} {a : Action}
    (hs : Conserved initial s) (h : Step s a t) : Conserved initial t := by
  obtain ⟨ha, h⟩ := h
  cases a with
  | readFd answer =>
    obtain ⟨r, hr, h⟩ := bind_ok h
    cases h
    obtain ⟨hv, hc⟩ := (readFd_admitted hs.valid ha).of_ok (readFdReturning_ok hr).1
    refine ⟨hv, ?_⟩
    change s.retrieved ++ r.buffer.content = initial ++ (s.received ++ delivered answer)
    rw [hc, ← List.append_assoc, hs.stream, List.append_assoc]
  | retrieve len =>
    cases h
    obtain ⟨hv, hc⟩ := retrieve_spec hs.valid len
    refine ⟨hv, ?_⟩
    change s.retrieved ++ s.buffer.content.take len ++ (s.buffer.retrieve len).content = _
    rw [hc, List.append_assoc, List.take_append_drop, hs.stream]

theorem run_conserved {initial : List UInt8} {s t : Intake} {acts : List Action}
    (hr : Run Step s acts t) (hs : Conserved initial s) : Conserved initial t :=
  hr.invariant (fun _ _ _ hi hstep => step_conserved hi hstep) hs

/-- From every reachable buffer, after every run of `ReadFd` and `Retrieve` calls: the
bytes retrieved followed by the readable ones are the initial ones followed by those
received, the indices are in order, a further `ReadFd` that returns `-1` changes nothing
but the error number, and one that throws throws `length_error`. -/
theorem received_bytes_unchanged {b : Buffer} {t : Intake} {acts : List Action}
    (hb : Reachable b) (hr : Run Step (.start b) acts t) :
    t.retrieved ++ t.buffer.content = b.content ++ t.received ∧
      t.buffer.readerIndex ≤ t.buffer.writerIndex ∧
      t.buffer.writerIndex ≤ t.buffer.buffer.length ∧
      (∀ saveErrno errno,
        readFdReturning t.buffer saveErrno (.failed errno) = .ok ⟨-1, errno, t.buffer⟩) ∧
      (∀ saveErrno answer r, readFdReturning t.buffer saveErrno answer = .ok r → r.n = -1 →
        r.buffer = t.buffer ∧ answer = .failed r.saveErrno) ∧
      ∀ answer, Admits t.buffer answer → ∀ e, t.buffer.readFd answer = .error e →
        e = .lengthError := by
  have hc : Conserved b.content t := run_conserved hr
    ⟨reachable_valid hb, (List.append_nil _).symm⟩
  refine ⟨hc.stream, hc.valid.ordered, hc.valid.bounded, fun _ _ => rfl, ?_, ?_⟩
  · intro saveErrno answer r h
    exact (readFdReturning_ok h).2
  · intro answer ha e he
    exact (readFd_admitted hc.valid ha).of_error he

/-- Ten bytes of storage: five bytes arrive, three of them through the stack buffer, then
four are retrieved, a read fails, and two more bytes arrive. -/
theorem received_through_the_stack_buffer :
    ∃ b t, Reachable b ∧
      Run Step (.start b) [.readFd (.received [1, 2, 3, 4, 5]), .retrieve 4, .readFd (.failed 11),
        .readFd (.received [6, 7])] t ∧
      t.retrieved = [1, 2, 3, 4] ∧ t.buffer.content = [5, 6, 7] ∧ t.saveErrno = 11 ∧
      t.retrieved ++ t.buffer.content = b.content ++ t.received := by
  have hnew : Buffer.new 2 = .ok ⟨List.replicate 10 0, 8, 8⟩ := new_of_fits (by decide)
  have hb : Reachable ⟨List.replicate 10 0, 8, 8⟩ := .new (by decide) hnew
  have hexec : (Run.exec Action.Admitted perform (.start ⟨List.replicate 10 0, 8, 8⟩)
      [.readFd (.received [1, 2, 3, 4, 5]), .retrieve 4, .readFd (.failed 11),
        .readFd (.received [6, 7])]).map (fun t => (t.retrieved, t.buffer.content, t.saveErrno)) =
      some ([1, 2, 3, 4], [5, 6, 7], 11) := by decide +kernel
  cases ht : Run.exec Action.Admitted perform (.start ⟨List.replicate 10 0, 8, 8⟩)
      [.readFd (.received [1, 2, 3, 4, 5]), .retrieve 4, .readFd (.failed 11),
        .readFd (.received [6, 7])] with
  | none =>
    rw [ht] at hexec
    cases hexec
  | some t =>
    rw [ht] at hexec
    obtain ⟨h1, h2⟩ := Prod.mk.inj (Option.some.inj hexec)
    obtain ⟨h2, h3⟩ := Prod.mk.inj h2
    have hr := Run.of_exec ht
    exact ⟨_, t, hb, hr, h1, h2, h3, (received_bytes_unchanged hb hr).1⟩

end RyanNetwork.Buffer.Received
