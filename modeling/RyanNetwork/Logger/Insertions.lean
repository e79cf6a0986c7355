import RyanNetwork.Lib.Runs
import RyanNetwork.Lib.SizeT
import RyanNetwork.Logger.LogStream

/-!
# Sequences of insertions

The overloads share one cursor but test the room in different ways. Over any sequence of
insertions and calls of `ResetBuffer` each text enters the buffer as a whole or not at all,
and nothing is written behind the buffer.
-/
namespace RyanNetwork.Logger

open Lib

set_option autoImplicit false

/-- `len_` is an `int`; `data` are the bytes at `data_`. -/
structure GeneralTemplate where
  data : List UInt8
  len : Int
  isInt : -2 ^ 31 ≤ len ∧ len < 2 ^ 31
  readable : len ≤ data.length

def GeneralTemplate.text (g : GeneralTemplate) : List UInt8 := g.data.take g.len.toNat

/-- `operator<<(const GeneralTemplate&)`: the length becomes a `size_t`, so a negative one
is larger than any room. -/
def insertGeneral (b : FixedBuffer kSmallBuffer) (g : GeneralTemplate) :
    FixedBuffer kSmallBuffer :=
  if SizeT.ofInt g.len < b.avail then b.append g.text else b

inductive StreamOp where
  | insert (i : Insertion)
  | general (g : GeneralTemplate)
  | resetBuffer

namespace StreamOp

/-- Insertions of characters, strings, numbers and pointers, and `ResetBuffer`. -/
def Listed : StreamOp → Prop
  | .insert (.double _) => False
  | .insert (.buffer _) => False
  | _ => True

def text : StreamOp → List UInt8
  | .insert i => i.text
  | .general g => g.text
  | .resetBuffer => []

def perform (b : FixedBuffer kSmallBuffer) :
    StreamOp → Except StreamFault (FixedBuffer kSmallBuffer)
  | .insert i => Logger.insert b i
  | .general g => .ok (insertGeneral b g)
  | .resetBuffer => .ok b.reset

/-- The texts accepted since the last `ResetBuffer`, of which `texts` were before. -/
def accept (b : FixedBuffer kSmallBuffer) (texts : List (List UInt8)) :
    StreamOp → List (List UInt8)
  | .insert i => if i.fits b then texts ++ [i.text] else texts
  | .general g => if SizeT.ofInt g.len < b.avail then texts ++ [g.text] else texts
  | .resetBuffer => []

/-- One operation, beside the texts accepted since the last `ResetBuffer`. -/
def Step (s : FixedBuffer kSmallBuffer × List (List UInt8)) (op : StreamOp)
    (t : FixedBuffer kSmallBuffer × List (List UInt8)) : Prop :=
  op.perform s.1 = .ok t.1 ∧ t.2 = op.accept s.1 s.2

/-- What an operation may do to the buffer: an insertion appends its whole text or changes
neither the bytes in front of the cursor nor the cursor. -/
def AllOrNothing (op : StreamOp) (b b' : FixedBuffer kSmallBuffer) : Prop :=
  (op = .resetBuffer → b'.curr = 0) ∧
    (op ≠ .resetBuffer →
      b'.payload = b.payload ++ op.text ∧ b'.curr = b.curr + op.text.length ∨
        b'.payload = b.payload ∧ b'.curr = b.curr)

end StreamOp

/-- A text that is accepted fits. -/
theorem GeneralTemplate.text_length {g : GeneralTemplate} {room : Nat}
    (h : SizeT.ofInt g.len < room) : g.text.length < room := by
  have hint := g.isInt
  have hlen : g.text.length ≤ g.len.toNat := List.length_take_le _ _
  by_cases hneg : g.len < 0
  · omega
  · have hexact := SizeT.ofInt_exact (i := g.len) (by omega) (by omega)
    omega

namespace StreamOp

variable {b b' : FixedBuffer kSmallBuffer} {op : StreamOp}

theorem perform_returns (b : FixedBuffer kSmallBuffer) (hop : op.Listed) :
    ∃ b', op.perform b = .ok b' := by
  cases op with
  | insert i =>
    refine insert_returns b ?_
    rintro text rfl
    exact hop
  | general g => exact ⟨_, rfl⟩
  | resetBuffer => exact ⟨_, rfl⟩

/-- The bytes in front of the cursor are the accepted texts. -/
theorem perform_payload {texts : List (List UInt8)} (h : op.perform b = .ok b')
    (hb : b.payload = texts.flatten) : b'.payload = (op.accept b texts).flatten := by
  cases op with
  | insert i =>
    obtain ⟨hpayload, -⟩ := insert_spec h
    rw [hpayload, hb, accept, Insertion.accepted]
    split
    · rw [List.flatten_append, List.flatten_singleton]
    · rw [List.append_nil]
  | general g =>
    cases h
    rw [insertGeneral, accept]
    split
    · rename_i hroom
      have hlen := GeneralTemplate.text_length hroom
      rw [FixedBuffer.payload_append hlen, hb, List.flatten_append, List.flatten_singleton]
    · exact hb
  | resetBuffer =>
    cases h
    rfl

/-- An operation accepts its text or nothing. -/
theorem accept_cases (b : FixedBuffer kSmallBuffer) (texts : List (List UInt8)) (op : StreamOp) :
    op = .resetBuffer ∨ op.accept b texts = texts ++ [op.text] ∨ op.accept b texts = texts := by
  cases op with
  | insert i =>
    rw [accept]
    split
    · exact Or.inr (Or.inl rfl)
    · exact Or.inr (Or.inr rfl)
  | general g =>
    rw [accept]
    split
    · exact Or.inr (Or.inl rfl)
    · exact Or.inr (Or.inr rfl)
  | resetBuffer => exact Or.inl rfl

theorem perform_allOrNothing (h : op.perform b = .ok b') : op.AllOrNothing b b' := by
  have hpayload : b'.payload = (op.accept b [b.payload]).flatten :=
    perform_payload h (List.flatten_singleton).symm
  have hcurr := b.payload_length
  have hcurr' := b'.payload_length
  refine ⟨?_, ?_⟩
  · rintro rfl
    cases h
    rfl
  · intro hop
    rcases (accept_cases b [b.payload] op).resolve_left hop with haccept | haccept
    · rw [haccept, List.flatten_append, List.flatten_singleton, List.flatten_singleton]
        at hpayload
      refine Or.inl ⟨hpayload, ?_⟩
      rw [← hcurr', hpayload, List.length_append, hcurr]
    · rw [haccept, List.flatten_singleton] at hpayload
      refine Or.inr ⟨hpayload, ?_⟩
      rw [← hcurr', hpayload, hcurr]

/-- Every sequence of operations can be performed. -/
theorem run_exists (s : FixedBuffer kSmallBuffer × List (List UInt8)) {ops : List StreamOp}
    (hops : ∀ op ∈ ops, op.Listed) : ∃ t, Run Step s ops t := by
  induction ops generalizing s with
  | nil => exact ⟨s, .nil s⟩
  | cons op ops ih =>
    obtain ⟨b', hb'⟩ := perform_returns s.1 (hops op List.mem_cons_self)
    obtain ⟨t, ht⟩ := ih (b', op.accept s.1 s.2) fun op' hop' =>
      hops op' (List.mem_cons_of_mem _ hop')
    exact ⟨t, .cons ⟨hb', rfl⟩ ht⟩

/-- Every sequence of insertions and resets, on a buffer with any contents, is performed
without a write behind the buffer; the cursor stays within it; the bytes in front of the
cursor are the texts accepted since the last reset; and whatever operation comes next, it
returns and is all or nothing. -/
theorem insertions_all_or_nothing (memory : List.Vector UInt8 kSmallBuffer)
    {ops : List StreamOp} (hops : ∀ op ∈ ops, op.Listed) :
    ∃ b texts, Run Step (.new memory, []) ops (b, texts) ∧ b.curr ≤ 4000 ∧
      b.payload = texts.flatten ∧
      ∀ op : StreamOp, op.Listed → ∃ b', op.perform b = .ok b' ∧ op.AllOrNothing b b' := by
  obtain ⟨⟨b, texts⟩, hrun⟩ := run_exists (.new memory, []) hops
  have hpayload : b.payload = texts.flatten :=
    hrun.invariant (P := fun s => s.1.payload = s.2.flatten)
      (fun s op t hs ht => by rw [ht.2]; exact perform_payload ht.1 hs) rfl
  refine ⟨b, texts, hrun, b.curr_le, hpayload, ?_⟩
  intro op hop
  obtain ⟨b', hb'⟩ := perform_returns b hop
  exact ⟨b', hb', perform_allOrNothing hb'⟩

/-- One insertion of each kind, a template of negative length among them, and a reset. -/
def oneOfEach : List StreamOp :=
  [.insert (.char 97), .insert (.str none), .insert (.string [98, 99]),
    .general ⟨[100], 1, by decide, by decide⟩, .general ⟨[], -1, by decide, by decide⟩,
    .resetBuffer, .insert (.integer ⟨-7, by decide⟩), .insert (.pointer 255)]

theorem insertions_all_or_nothing_oneOfEach :
    (∀ op ∈ oneOfEach, op.Listed) ∧
    ∃ b texts, Run Step (.new ⟨List.replicate kSmallBuffer 0, List.length_replicate⟩, [])
      oneOfEach (b, texts) ∧ b.curr ≤ 4000 ∧ b.payload = texts.flatten ∧
      ∀ op : StreamOp, op.Listed → ∃ b', op.perform b = .ok b' ∧ op.AllOrNothing b b' := by
  have hops : ∀ op ∈ oneOfEach, op.Listed := by simp [oneOfEach, Listed]
  exact ⟨hops, insertions_all_or_nothing _ hops⟩

end StreamOp

end RyanNetwork.Logger
