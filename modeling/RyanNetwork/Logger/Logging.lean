import RyanNetwork.Logger.Conservation
import RyanNetwork.Logger.LogStream

/-!
# What a log record is made of

`~Logger` passes its stream's buffer to `g_output`, and the backend of `AsyncLogging`
passes each of its buffers to the log file, both with `Length()` as the length. That is
the size of the array, so only a buffer that is filled to its last byte is passed without
stale bytes, and neither stream nor logger ever fills one.
-/
namespace RyanNetwork.Logger

open Lib

set_option autoImplicit false

inductive LogLevel where
  | TRACE
  | DEBUG
  | INFO
  | WARN
  | ERROR
  | FATAL
  deriving DecidableEq, Repr

/-- `get_level_name`. -/
def LogLevel.name : LogLevel → List UInt8
  | .TRACE => chars "TRACE "
  | .DEBUG => chars "DEBUG "
  | .INFO => chars "INFO  "
  | .WARN => chars "WARN  "
  | .ERROR => chars "ERROR "
  | .FATAL => chars "FATAL "

/-- `SourceFile`: the part of the path behind its last slash. -/
def sourceFile (filename : List UInt8) : List UInt8 :=
  (filename.reverse.takeWhile (· != 47)).reverse

/-- What the constructor of `Logger::Impl` is given or asks the system for: the formatted time
and microseconds, and the text of `savedErrno`. `func` belongs to the constructor of `Logger`. -/
structure Impl where
  time : List.Vector UInt8 20
  microseconds : List.Vector UInt8 7
  level : LogLevel
  savedErrno : Integer
  errnoMsg : List UInt8
  func : Option (List UInt8)
  file : List UInt8
  line : Integer

namespace Impl

/-- `FormatTime`, then the name of the level. -/
def header (l : Impl) : List Insertion :=
  [.general l.time.1, .str (some (chars ".")), .general l.microseconds.1, .general l.level.name]

def errnoText (l : Impl) : List Insertion :=
  if l.savedErrno.1 = 0 then []
  else [.str (some l.errnoMsg), .str (some (chars " (errno=")), .integer l.savedErrno,
    .str (some (chars ") "))]

def funcName (l : Impl) : List Insertion :=
  match l.func with
  | some func => [.str (some func), .char 32]
  | none => []

/-- The insertions of the constructors. -/
def start (l : Impl) : List Insertion := l.header ++ l.errnoText ++ l.funcName

/-- `Finish`. -/
def finish (l : Impl) : List Insertion :=
  [.str (some (chars " - ")), .general (sourceFile l.file), .char 58, .integer l.line, .char 10]

/-- All insertions of a record. -/
def insertions (l : Impl) (streamed : List Insertion) : List Insertion :=
  l.start ++ streamed ++ l.finish

end Impl

/-- `(data(), Length())`, as it is passed on. -/
def passed {SIZE : Nat} (b : FixedBuffer SIZE) : List UInt8 × Nat := (b.data, b.length)

/-- The bytes that a reader of such a pair sees. -/
def bytesOf (pair : List UInt8 × Nat) : List UInt8 := pair.1.take pair.2

/-- What `~Logger` passes to `g_output`; `memory` is what the buffer held before. -/
def output (l : Impl) (memory : List.Vector UInt8 kSmallBuffer) (streamed : List Insertion) :
    Except StreamFault (List UInt8 × Nat) := do
  let b ← insertAll (.new memory) (l.insertions streamed)
  return passed b

def kLargeBuffer : Nat := 4000 * 1000

theorem bytesOf_passed {SIZE : Nat} (b : FixedBuffer SIZE) : bytesOf (passed b) = b.toString := rfl

theorem output_ne {l : Impl} {memory : List.Vector UInt8 kSmallBuffer}
    {streamed : List Insertion} {pair : List UInt8 × Nat}
    (h : output l memory streamed = .ok pair) :
    bytesOf pair ≠ inserted (.new memory) (l.insertions streamed) := by
  obtain ⟨b, hb, h⟩ := bind_ok h
  cases h
  obtain ⟨hpayload, havail⟩ := insertAll_spec hb
  rw [FixedBuffer.payload_new, List.nil_append] at hpayload
  rw [← hpayload, bytesOf_passed, Ne, FixedBuffer.toString_eq_payload_iff]
  apply havail
  rw [FixedBuffer.avail_of_payload (FixedBuffer.payload_new memory)]
  decide

/-! ## The buffers of `AsyncLogging` -/

section Buffers

variable {SIZE : Nat} {s t : AsyncLogging SIZE}

/-- Every buffer has a free byte. -/
def Roomy (bs : List (FixedBuffer SIZE)) : Prop := ∀ b ∈ bs, b.avail ≠ 0

/-- All buffers there are. -/
def held (s : AsyncLogging SIZE) : List (FixedBuffer SIZE) :=
  s.current.toList ++ s.next.toList ++ s.buffers ++ s.newBuffer1.toList ++ s.newBuffer2.toList ++
    s.buffersToWrite ++ s.output

theorem roomy_append {l m : List (FixedBuffer SIZE)} : Roomy (l ++ m) ↔ Roomy l ∧ Roomy m := by
  simp only [Roomy, List.mem_append]
  constructor
  · intro h
    exact ⟨fun b hb => h b (Or.inl hb), fun b hb => h b (Or.inr hb)⟩
  · rintro ⟨hl, hm⟩ b (hb | hb)
    · exact hl b hb
    · exact hm b hb

theorem Roomy.sublist {l m : List (FixedBuffer SIZE)} (h : Roomy m) (hsub : l ⊆ m) : Roomy l :=
  fun b hb => h b (hsub hb)

theorem roomy_held_iff : Roomy (held s) ↔ Roomy s.current.toList ∧ Roomy s.next.toList ∧
    Roomy s.buffers ∧ Roomy s.newBuffer1.toList ∧ Roomy s.newBuffer2.toList ∧
    Roomy s.buffersToWrite ∧ Roomy s.output := by
  simp only [held, roomy_append, and_assoc]

theorem roomy_singleton {b : FixedBuffer SIZE} : Roomy [b] ↔ b.avail ≠ 0 := by
  simp [Roomy]

theorem roomy_nil : Roomy ([] : List (FixedBuffer SIZE)) := by simp [Roomy]

/-- A buffer without bytes has room, for there are no buffers of size 0. -/
theorem roomy_of_payload {b : FixedBuffer SIZE} (hsize : 0 < SIZE) (h : b.payload = []) :
    b.avail ≠ 0 := by
  rw [FixedBuffer.avail_of_payload h]
  omega

theorem append_roomy {logline : List UInt8} {memory : List.Vector UInt8 SIZE} (hsize : 0 < SIZE)
    (h : Roomy (held s)) (ha : s.append logline memory = .ok t) : Roomy (held t) := by
  obtain ⟨hcurrent, hnext, hbuffers, hspare1, hspare2, hwrite, hout⟩ := roomy_held_iff.mp h
  obtain ⟨current, hderef, ha⟩ := bind_ok ha
  rw [deref_ok hderef] at hcurrent
  have hroom : current.avail ≠ 0 := roomy_singleton.mp hcurrent
  split at ha
  · cases ha
    exact roomy_held_iff.mpr ⟨roomy_singleton.mpr (FixedBuffer.avail_append_ne hroom), hnext,
      hbuffers, hspare1, hspare2, hwrite, hout⟩
  · cases ha
    have hfresh : (s.next.getD (.new memory)).avail ≠ 0 := by
      cases hn : s.next with
      | none => exact roomy_of_payload hsize (FixedBuffer.payload_new memory)
      | some b =>
        rw [hn] at hnext
        exact roomy_singleton.mp hnext
    exact roomy_held_iff.mpr ⟨roomy_singleton.mpr (FixedBuffer.avail_append_ne hfresh), roomy_nil,
      roomy_append.mpr ⟨hbuffers, hcurrent⟩, hspare1, hspare2, hwrite, hout⟩

theorem swapBuffers_roomy (h : Roomy (held s)) (hs : s.swapBuffers = .ok t) : Roomy (held t) := by
  obtain ⟨hcurrent, hnext, hbuffers, hspare1, hspare2, hwrite, hout⟩ := roomy_held_iff.mp h
  obtain ⟨current, hderef, hs⟩ := bind_ok hs
  rw [deref_ok hderef] at hcurrent
  cases hs
  refine roomy_held_iff.mpr ⟨hspare1, ?_, hwrite, roomy_nil, ?_, roomy_append.mpr ⟨hbuffers, hcurrent⟩,
    hout⟩
  · dsimp only
    split
    · exact hnext
    · exact hspare2
  · dsimp only
    split
    · exact hspare2
    · exact roomy_nil

theorem giveBack_roomy {spare : Option (FixedBuffer SIZE)} {buffers rest : List (FixedBuffer SIZE)}
    {b : FixedBuffer SIZE} (hsize : 0 < SIZE) (hspare : Roomy spare.toList)
    (h : AsyncLogging.giveBack spare buffers = .ok (b, rest)) : b.avail ≠ 0 ∧ rest ⊆ buffers := by
  unfold AsyncLogging.giveBack at h
  split at h
  · cases h
    exact ⟨roomy_singleton.mp hspare, List.Subset.refl _⟩
  · split at h
    · cases h
      exact ⟨roomy_of_payload hsize (FixedBuffer.payload_reset _), List.dropLast_subset _⟩
    · cases h

theorem backend_roomy (hsize : 0 < SIZE) (h : Roomy (held s)) (hs : s.backend = .ok t) :
    Roomy (held t) := by
  obtain ⟨hcurrent, hnext, hbuffers, hspare1, hspare2, hwrite, hout⟩ := roomy_held_iff.mp h
  unfold AsyncLogging.backend at hs
  split at hs
  · cases hs
    exact h
  · cases hs
    exact h
  · unfold AsyncLogging.lock at hs
    split at hs
    · cases hs
      exact h
    · exact swapBuffers_roomy h hs
  · exact swapBuffers_roomy h hs
  · rename_i k hk
    split at hs
    · obtain ⟨buffer, hderef, hs⟩ := bind_ok hs
      cases hs
      have hmem : buffer ∈ s.buffersToWrite := List.mem_of_getElem? (deref_ok hderef)
      exact roomy_held_iff.mpr ⟨hcurrent, hnext, hbuffers, hspare1, hspare2, hwrite,
        roomy_append.mpr ⟨hout, roomy_singleton.mpr (hwrite buffer hmem)⟩⟩
    · obtain ⟨⟨spare, rest⟩, hg, hs⟩ := bind_ok hs
      cases hs
      obtain ⟨hroom, hrest⟩ := giveBack_roomy hsize hspare1 hg
      exact roomy_held_iff.mpr ⟨hcurrent, hnext, hbuffers, roomy_singleton.mpr hroom, hspare2,
        hwrite.sublist (List.Subset.trans hrest (List.take_subset 2 _)), hout⟩
  · obtain ⟨⟨spare, rest⟩, hg, hs⟩ := bind_ok hs
    cases hs
    obtain ⟨hroom, -⟩ := giveBack_roomy hsize hspare2 hg
    exact roomy_held_iff.mpr ⟨hcurrent, hnext, hbuffers, hspare1, roomy_singleton.mpr hroom,
      roomy_nil, hout⟩
  · cases hs
    exact h

/-- No step of a thread fills a buffer to its last byte. -/
theorem step_roomy {a : LogStep SIZE} (hsize : 0 < SIZE) (h : Roomy (held s))
    (hs : AsyncLogging.Step s a t) : Roomy (held t) := by
  obtain ⟨-, hs⟩ := hs
  cases a with
  | append logline memory => exact append_roomy hsize h hs
  | start =>
    cases hs
    obtain ⟨hcurrent, hnext, hbuffers, -, -, hwrite, hout⟩ := roomy_held_iff.mp h
    have hcleared : Roomy [cleared SIZE] :=
      roomy_singleton.mpr (roomy_of_payload hsize cleared_payload)
    exact roomy_held_iff.mpr ⟨hcurrent, hnext, hbuffers, hcleared, hcleared, hwrite, hout⟩
  | backend => exact backend_roomy hsize h hs
  | stop =>
    cases hs
    exact h

theorem run_roomy {steps : List (LogStep SIZE)} (hsize : 0 < SIZE)
    (h : Run AsyncLogging.Step (.new SIZE) steps s) : Roomy (held s) := by
  apply h.invariant (P := fun s => Roomy (held s)) (fun _ _ _ => step_roomy hsize)
  have hcleared : Roomy [cleared SIZE] :=
    roomy_singleton.mpr (roomy_of_payload hsize cleared_payload)
  exact roomy_held_iff.mpr ⟨hcleared, hcleared, roomy_nil, roomy_nil, roomy_nil, roomy_nil,
    roomy_nil⟩

end Buffers

/-- A `FixedBuffer` is exact after a sequence of `Append`, `Add` within `Avail()` and `Reset`
exactly if it is full. No stream of a `Logger` and no buffer of `AsyncLogging` is ever full:
what they pass on is never what was inserted. -/
theorem log_record_exact_iff_full {SIZE : Nat} {memory : List.Vector UInt8 SIZE}
    {ops : List FixedBuffer.Operation} {b : FixedBuffer SIZE} {accepted : List UInt8}
    (hb : Run FixedBuffer.Step (.new memory, []) ops (b, accepted))
    (l : Impl) (stream : List.Vector UInt8 kSmallBuffer) (streamed : List Insertion)
    {steps : List (LogStep kLargeBuffer)} {s : AsyncLogging kLargeBuffer}
    (hs : Run AsyncLogging.Step (.new kLargeBuffer) steps s) :
    (b.Exact accepted ↔ b.avail = 0) ∧
      (∀ pair, output l stream streamed = .ok pair →
        bytesOf pair ≠ inserted (.new stream) (l.insertions streamed)) ∧
      ∀ buffer ∈ s.output, bytesOf (passed buffer) ≠ buffer.payload := by
  refine ⟨?_, fun _ h => output_ne h, ?_⟩
  · rw [← FixedBuffer.run_payload hb]
    exact FixedBuffer.exact_payload_iff b
  · intro buffer hbuffer
    obtain ⟨-, -, -, -, -, -, hout⟩ := roomy_held_iff.mp (run_roomy (by decide) hs)
    rw [bytesOf_passed, Ne, FixedBuffer.toString_eq_payload_iff]
    exact hout buffer hbuffer

/-- The logger of `LOG_INFO` in line 7 of `a/b.cc`. -/
def infoLogger : Impl where
  time := ⟨chars "2024/01/02 03:04:05" ++ [0], by decide⟩
  microseconds := ⟨chars "000006 ", by decide⟩
  level := .INFO
  savedErrno := ⟨0, by omega⟩
  errnoMsg := []
  func := none
  file := chars "a/b.cc"
  line := ⟨7, by omega⟩

/-- A buffer that `Append` and `Add` fill to its last byte. -/
theorem log_record_exact_of_filled : ∃ (b : FixedBuffer 4),
    Run FixedBuffer.Step (.new (.replicate 4 0), [])
      [.append [104, 105], .store [33, 10], .add 2] (b, [104, 105, 33, 10]) ∧
    b.Exact [104, 105, 33, 10] := by
  have h : ∃ b : FixedBuffer 4, Run FixedBuffer.Step (.new (.replicate 4 0), [])
      [.append [104, 105], .store [33, 10], .add 2] (b, [104, 105, 33, 10]) ∧ b.avail = 0 :=
    ⟨⟨[104, 105, 33, 10], 4, by decide, by decide⟩,
      .cons (t := (⟨[104, 105, 0, 0], 2, by decide, by decide⟩, [104, 105])) ⟨rfl, rfl⟩
        (.cons (t := (⟨[104, 105, 33, 10], 2, by decide, by decide⟩, [104, 105])) ⟨rfl, rfl⟩
          (.single ⟨rfl, rfl⟩)), by decide⟩
  obtain ⟨b, hr, hfull⟩ := h
  have hexact := log_record_exact_iff_full hr infoLogger (.replicate kSmallBuffer 0)
    [.str (some (chars "hi"))] (.nil _)
  exact ⟨b, hr, hexact.1.mpr hfull⟩

/-- Two bytes appended to a buffer count as its whole array, and `LOG_INFO << "hi"` is
passed on as 4000 bytes, of which 46 were inserted. -/
theorem log_record_with_stale_bytes :
    (∃ b : FixedBuffer 4, Run FixedBuffer.Step (.new (.replicate 4 0), [])
      [.append [104, 105]] (b, [104, 105]) ∧ b.length = 4 ∧ b.toString = [104, 105, 0, 0]) ∧
    ∃ pair, output infoLogger (.replicate kSmallBuffer 170) [.str (some (chars "hi"))] = .ok pair ∧
      pair.2 = 4000 ∧
      (inserted (.new (.replicate kSmallBuffer 170))
        (infoLogger.insertions [.str (some (chars "hi"))])).length = 46 ∧
      bytesOf pair ≠ inserted (.new (.replicate kSmallBuffer 170))
        (infoLogger.insertions [.str (some (chars "hi"))]) := by
  refine ⟨⟨⟨[104, 105, 0, 0], 2, by decide, by decide⟩, .single ⟨rfl, rfl⟩, rfl, by decide⟩, ?_⟩
  have hok : ((output infoLogger (.replicate kSmallBuffer 170)
      [.str (some (chars "hi"))]).map (·.2)) = .ok 4000 := by decide +kernel
  have hlen : (inserted (.new (.replicate kSmallBuffer 170))
      (infoLogger.insertions [.str (some (chars "hi"))])).length = 46 := by decide +kernel
  obtain ⟨pair, h, hok⟩ := ok_of_map hok
  exact ⟨pair, h, hok, hlen, output_ne h⟩

end RyanNetwork.Logger
