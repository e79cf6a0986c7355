import RyanNetwork.Buffer.Received

/-!
# What `RetrieveAsString` discloses

`RetrieveAsString(len)` copies `len` bytes from the reader index on and then calls
`Retrieve(len)`, which stops at the writer index. Beyond the readable bytes the copy
goes on into what earlier messages have left in the vector, and past its end.
-/
namespace RyanNetwork.Buffer.Disclosure

open Received

set_option autoImplicit false

/-- The bytes that `Retrieve(len)` takes out of the content. -/
def removed (b : Buffer) (len : Nat) : List UInt8 := b.content.take len

/-- What `RetrieveAsString(len)` is to return: the bytes that `Retrieve(len)` removes, the
same for every buffer that holds the same content. -/
structure DisclosesReadable (b : Buffer) (len : Nat) : Prop where
  returned : ∃ s c, b.retrieveAsString len = .ok (s, c) ∧ c = b.retrieve len ∧
    s = removed b len ∧ s ++ c.content = b.content
  determined : ∀ b', Reachable b' → b'.content = b.content →
    ∃ s c c', b.retrieveAsString len = .ok (s, c) ∧ b'.retrieveAsString len = .ok (s, c')

/-- A call that returns has copied as many bytes as it was asked for. -/
theorem retrieveAsString_length {b c : Buffer} {len : Nat} {s : List UInt8}
    (h : b.retrieveAsString len = .ok (s, c)) : s.length = len ∧ c = b.retrieve len := by
  obtain ⟨r, hr, h⟩ := Lib.bind_ok h
  cases h
  unfold peekString at hr
  split at hr
  · rename_i hin
    cases hr
    refine ⟨?_, rfl⟩
    rw [List.length_take, List.length_drop]
    omega
  · cases hr

/-- For every reachable buffer and every length, `RetrieveAsString` returns the bytes that
`Retrieve` removes, whatever lies outside the readable region, if and only if the length
does not exceed `ReadableBytes()`. -/
theorem retrieveAsString_discloses_iff {b : Buffer} (hb : Reachable b) (len : Nat) :
    DisclosesReadable b len ↔ len ≤ b.readableBytes := by
  have hv := reachable_valid hb
  constructor
  · rintro ⟨⟨s, c, hcall, -, -, hsum⟩, -⟩
    have hlen := (retrieveAsString_length hcall).1
    have htotal := congrArg List.length hsum
    rw [List.length_append, content_length hv] at htotal
    omega
  · intro hl
    have hcall := retrieveAsString_spec hv hl
    refine ⟨⟨_, _, hcall, rfl, rfl, ?_⟩, ?_⟩
    · rw [(retrieve_spec hv len).2, List.take_append_drop]
    · intro b' hb' hsame
      have hv' := reachable_valid hb'
      have hl' : len ≤ b'.readableBytes := by
        rw [← content_length hv', hsame, content_length hv]
        exact hl
      refine ⟨_, _, b'.retrieve len, hcall, ?_⟩
      rw [retrieveAsString_spec hv' hl', hsame]

/-- A buffer of two bytes that holds its first message. -/
theorem full_buffer_reachable : Reachable ⟨List.replicate 8 0 ++ [97, 98], 8, 10⟩ := by
  have hnew : Buffer.new 2 = .ok ⟨List.replicate 10 0, 8, 8⟩ := new_of_fits (by decide)
  have happend : (ByteQueue.Op.append [97, 98]).apply ⟨List.replicate 10 0, 8, 8⟩ =
      .ok ⟨List.replicate 8 0 ++ [97, 98], 8, 10⟩ := by decide +kernel
  exact .call (.new (by decide) hnew) (by change 2 < 2 ^ 31; decide) happend

/-- One of the two bytes of a message is asked for. -/
theorem first_byte_disclosed :
    DisclosesReadable ⟨List.replicate 8 0 ++ [97, 98], 8, 10⟩ 1 :=
  (retrieveAsString_discloses_iff full_buffer_reachable 1).mpr (by decide +kernel)

/-- Two empty buffers: one has never held anything, the other has handed out its message
`ab`. Asked for two bytes, the second returns that message again; asked for three, both
read past the vector. -/
theorem earlier_message_disclosed :
    ∃ b b', Reachable b ∧ Reachable b' ∧ b.content = [] ∧ b'.content = [] ∧
      b.readableBytes = 0 ∧
      b.retrieveAsString 2 = .ok ([97, 98], b) ∧ b'.retrieveAsString 2 = .ok ([0, 0], b') ∧
      b.retrieveAsString 3 = .error .outOfBounds ∧
      ¬DisclosesReadable b 2 := by
  have hnew : Buffer.new 2 = .ok ⟨List.replicate 10 0, 8, 8⟩ := new_of_fits (by decide)
  have hretrieve : (ByteQueue.Op.retrieve 2).apply ⟨List.replicate 8 0 ++ [97, 98], 8, 10⟩ =
      .ok ⟨List.replicate 8 0 ++ [97, 98], 8, 8⟩ := by decide +kernel
  have hallowed : (ByteQueue.Op.retrieve 2).Allowed
      ⟨List.replicate 8 0 ++ [97, 98], 8, 10⟩ := trivial
  have hb : Reachable ⟨List.replicate 8 0 ++ [97, 98], 8, 8⟩ :=
    .call full_buffer_reachable hallowed hretrieve
  refine ⟨_, _, hb, .new (by decide) hnew, rfl, rfl, by decide +kernel, by decide +kernel,
    by decide +kernel, by decide +kernel, ?_⟩
  rintro ⟨⟨s, c, hcall, -, hs, -⟩, -⟩
  have hlen := (retrieveAsString_length hcall).1
  rw [hs] at hlen
  exact absurd hlen (by decide)

end RyanNetwork.Buffer.Disclosure
