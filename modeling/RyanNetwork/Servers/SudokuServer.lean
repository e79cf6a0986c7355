import RyanNetwork.Http.Parsing
import RyanNetwork.Lib.Runs
import RyanNetwork.Sudoku.Memory

/-!
# The Sudoku server

`examples/sudoku/server_basic.cc` on one connection. A client may send any number of
requests, `id:puzzle` or `puzzle`, each with a CRLF after it, and the network may cut them
anywhere. The loop of `OnMessage` only looks for a CRLF while a shortest request could be
there, and it gives up on a line that is longer than any request it takes.
-/
namespace RyanNetwork.Servers.SudokuServer

open Lib Sudoku
open Http (ascii CrlfFree)
open Http.HttpContext (find findCRLF)

set_option autoImplicit false

/-- One connection: its input buffer, whether its state is `kConnected`, the bytes that were
sent on it, and how many puzzles were given to `SolveSudoku` so far. -/
structure Session where
  buffer : Buffer
  connected : Bool
  sent : List UInt8
  solved : Nat

namespace Session

/-- `conn->Send(…)`: nothing is sent unless connected. -/
def send (s : Session) (data : List UInt8) : Session :=
  if s.connected then { s with sent := s.sent ++ data } else s

/-- `conn->Shutdown()`. -/
def shutdown (s : Session) : Session := { s with connected := false }

@[simp] theorem send_buffer (s : Session) (data : List UInt8) : (s.send data).buffer = s.buffer := by
  unfold send
  split <;> rfl

@[simp] theorem send_connected (s : Session) (data : List UInt8) :
    (s.send data).connected = s.connected := by
  unfold send
  split <;> rfl

@[simp] theorem send_sent (s : Session) (data : List UInt8) :
    (s.send data).sent = if s.connected then s.sent ++ data else s.sent := by
  unfold send
  split <;> rfl

end Session

def badRequest : List UInt8 := ascii "Bad Request!\r\n"

def idTooLong : List UInt8 := ascii "Id too long!\r\n"

/-- The `id` and the `puzzle` of a request. -/
def idAndPuzzle (request : List UInt8) : List UInt8 × List UInt8 :=
  match find ':' request with
  | some colon => (request.take colon, request.drop (colon + 1))
  | none => ([], request)

/-- What is sent for a result. -/
def reply (id result : List UInt8) : List UInt8 :=
  if id.isEmpty then result ++ ascii "\r\n" else id ++ ascii ":" ++ result ++ ascii "\r\n"

/-- `ProcessRequest`. The solver of puzzle number `n` finds `mem n` in its memory. -/
def processRequest (mem : Nat → Nodes) (fuel : Nat) (s : Session) (request : List UInt8) :
    Option (Bool × Session) :=
  let (id, puzzle) := idAndPuzzle request
  if puzzle.length = kCells then do
    let result ← solveSudoku (mem s.solved) fuel puzzle
    some (true, { s with solved := s.solved + 1 }.send (reply id result))
  else some (false, s)

/-- The loop of `OnMessage`; `none` when it does not end within its turns. -/
def messageLoop (mem : Nat → Nodes) (fuel : Nat) : Nat → Session → Option Session
  | 0, _ => none
  | turns + 1, s =>
    if kCells + 2 ≤ s.buffer.readableBytes then
      match findCRLF s.buffer with
      | some crlf => do
        let request := s.buffer.content.take crlf
        let (good, s) ← processRequest mem fuel
          { s with buffer := s.buffer.retrieveUntil (crlf + 2) } request
        if good then messageLoop mem fuel turns s
        else some (s.send badRequest).shutdown
      | none =>
        if 100 < s.buffer.readableBytes then some (s.send idTooLong).shutdown else some s
    else some s

def onMessage (mem : Nat → Nodes) (fuel : Nat) (s : Session) : Option Session :=
  messageLoop mem fuel (s.buffer.readableBytes + 1) s

/-- `HandleRead` of the connection takes a segment from its socket. -/
def Step (mem : Nat → Nodes) (fuel : Nat) (s : Session) (data : List UInt8) (s' : Session) :
    Prop :=
  data ≠ [] ∧ data.length ≤ s.buffer.writableBytes + Buffer.extrabufSize ∧
    ∃ b, s.buffer.readFd (.received data) = .ok b ∧
      onMessage mem fuel { s with buffer := b } = some s'

/-! ## What is owed to a stream of bytes -/

/-- What is sent for complete lines and the beginning of one more, and what then stays in the
buffer of a connection that is not shut down. -/
def serveLines : List (List UInt8) → List UInt8 → List UInt8 × Option (List UInt8)
  | [], rest => if 100 < rest.length then (idTooLong, none) else ([], some rest)
  | l :: ls, rest =>
    if (Lines.wire 13 10 (l :: ls) ++ rest).length < kCells + 2 then
      ([], some (Lines.wire 13 10 (l :: ls) ++ rest))
    else if (idAndPuzzle l).2.length = kCells then
      (reply (idAndPuzzle l).1 (answerOf (idAndPuzzle l).2) ++ (serveLines ls rest).1,
        (serveLines ls rest).2)
    else (badRequest, none)

def serve (stream : List UInt8) : List UInt8 × Option (List UInt8) :=
  serveLines (Lines.split 13 10 stream).1 (Lines.split 13 10 stream).2

/-- What one call of `OnMessage` leaves of `s`, if it owes `out`: after a shutdown nothing is
sent any more. -/
structure Delivered (s : Session) (out : List UInt8 × Option (List UInt8)) (s' : Session) :
    Prop where
  valid : s'.buffer.Valid
  sent : s'.sent = if s.connected then s.sent ++ out.1 else s.sent
  connected : s'.connected = (s.connected && out.2.isSome)
  content : s.connected = true → ∀ left, out.2 = some left → s'.buffer.content = left

variable {mem : Nat → Nodes} {fuel : Nat}

/-- The last turn of the loop. -/
theorem messageLoop_incomplete {s : Session} {rest : List UInt8} (turns : Nat)
    (hv : s.buffer.Valid) (hc : s.buffer.content = rest) (hrest : CrlfFree rest) :
    ∃ s', messageLoop mem fuel (turns + 1) s = some s' ∧ Delivered s (serveLines [] rest) s' := by
  have hlen : s.buffer.readableBytes = rest.length := by
    rw [← Buffer.content_length hv, hc]
  have hfind : findCRLF s.buffer = none := by
    unfold findCRLF
    rw [hc]
    exact hrest
  have hwaits : ¬100 < rest.length → Delivered s (serveLines [] rest) s := by
    intro hshort
    unfold serveLines
    rw [if_neg hshort]
    refine ⟨hv, by simp, by simp, ?_⟩
    intro _ left hleft
    rw [hc]
    exact Option.some.inj hleft
  unfold messageLoop
  rw [hlen, hfind]
  dsimp only
  split
  · split
    · rename_i hlong
      refine ⟨_, rfl, ?_⟩
      unfold serveLines
      rw [if_pos hlong]
      exact ⟨by simpa [Session.shutdown] using hv, by simp [Session.shutdown],
        by simp [Session.shutdown], by simp⟩
    · rename_i hshort
      exact ⟨s, rfl, hwaits hshort⟩
  · rename_i hfew
    exact ⟨s, rfl, hwaits (by unfold kCells at hfew; omega)⟩

/-- `OnMessage` takes the complete lines one after the other. -/
theorem messageLoop_delivers (hfuel : kMaxNodes < fuel) :
    ∀ (ls : List (List UInt8)) (rest : List UInt8) (turns : Nat) (s : Session), s.buffer.Valid →
      s.buffer.content = Lines.wire 13 10 ls ++ rest → (∀ l ∈ ls, CrlfFree l) → CrlfFree rest →
      ls.length < turns →
      ∃ s', messageLoop mem fuel turns s = some s' ∧ Delivered s (serveLines ls rest) s' := by
  intro ls
  induction ls with
  | nil =>
    intro rest turns s hv hc _ hrest hturns
    obtain ⟨turns, rfl⟩ : ∃ t, turns = t + 1 := ⟨turns - 1, by simp at hturns; omega⟩
    exact messageLoop_incomplete turns hv hc hrest
  | cons l ls ih =>
    intro rest turns s hv hc hls hrest hturns
    obtain ⟨turns, rfl⟩ : ∃ t, turns = t + 1 := ⟨turns - 1, by omega⟩
    have hlen : s.buffer.readableBytes = (Lines.wire 13 10 (l :: ls) ++ rest).length := by
      rw [← Buffer.content_length hv, hc]
    have hline : s.buffer.content = l ++ 13 :: 10 :: (Lines.wire 13 10 ls ++ rest) := by
      rw [hc, Lines.wire_cons]
      simp
    obtain ⟨hfind, htake, hdrop⟩ := Http.findCRLF_line (hls l List.mem_cons_self) hline
    obtain ⟨hv', hc'⟩ := Http.retrieveUntil_spec hv (l.length + 2)
    rw [hdrop] at hc'
    unfold messageLoop serveLines
    rw [hlen, hfind]
    dsimp only
    rw [htake]
    by_cases hfew : (Lines.wire 13 10 (l :: ls) ++ rest).length < kCells + 2
    · rw [if_neg (by omega), if_pos hfew]
      refine ⟨s, rfl, hv, by simp, by simp, ?_⟩
      intro _ left hleft
      rw [hc]
      exact Option.some.inj hleft
    · rw [if_pos (by omega), if_neg hfew]
      unfold processRequest
      dsimp only
      by_cases hgood : (idAndPuzzle l).2.length = kCells
      · rw [if_pos hgood, if_pos hgood, (solveSudoku_answerOf (mem s.solved) hfuel hgood).1]
        simp only [Option.bind_eq_bind, Option.bind_some, if_true]
        obtain ⟨s', hs', hd⟩ := ih rest turns
          (Session.send ⟨s.buffer.retrieveUntil (l.length + 2), s.connected, s.sent, s.solved + 1⟩
            (reply (idAndPuzzle l).1 (answerOf (idAndPuzzle l).2)))
          (by simpa using hv') (by simpa using hc') (fun m hm => hls m (List.mem_cons_of_mem l hm))
          hrest (by simp at hturns; omega)
        refine ⟨s', hs', hd.valid, ?_, ?_, ?_⟩
        · rw [hd.sent]
          simp only [Session.send_connected, Session.send_sent]
          split
          · rw [List.append_assoc]
          · rfl
        · rw [hd.connected, Session.send_connected]
        · intro hconn
          exact hd.content (by simpa using hconn)
      · rw [if_neg hgood, if_neg hgood]
        simp only [Option.bind_eq_bind, Option.bind_some, Bool.false_eq_true, if_false]
        exact ⟨_, rfl, by simpa [Session.shutdown] using hv', by simp [Session.shutdown],
          by simp [Session.shutdown], by simp⟩

/-- `OnMessage` returns on every input buffer. -/
theorem onMessage_delivers (hfuel : kMaxNodes < fuel) (s : Session) (hv : s.buffer.Valid) :
    ∃ s', onMessage mem fuel s = some s' ∧ Delivered s (serve s.buffer.content) s' := by
  obtain ⟨hwire, hls, hrest⟩ := Http.completed_spec s.buffer
  have hturns : (Http.completed s.buffer).length < s.buffer.readableBytes + 1 := by
    have h1 := Http.wire_length (Http.completed s.buffer)
    have h2 := congrArg List.length hwire
    rw [List.length_append, Buffer.content_length hv] at h2
    omega
  exact messageLoop_delivers hfuel _ _ _ s hv hwire.symm hls hrest hturns

/-! ## Segments -/

/-- No complete line of the stream is longer than the loop waits for. -/
def ShortLines (stream : List UInt8) : Prop :=
  ∀ l ∈ (Lines.split 13 10 stream).1, l.length + 1 ≤ 100

theorem ShortLines.of_append {A B : List UInt8} (h : ShortLines (A ++ B)) : ShortLines A := by
  intro l hl
  refine h l ?_
  rw [Lines.split_append (by decide)]
  exact List.mem_append_left _ hl

/-- An incomplete line that is too long belongs to a line that is too long. -/
theorem serve_too_long {rest B : List UInt8} (hrest : CrlfFree rest) (hlong : 100 < rest.length)
    (hshort : ShortLines (rest ++ B)) : serve (rest ++ B) = (idTooLong, none) := by
  obtain hnone | ⟨l, tail, hs, hl⟩ : Lines.find 13 10 (rest ++ B) = none ∨
      ∃ l tail, rest ++ B = l ++ 13 :: 10 :: tail ∧ Lines.find 13 10 l = none :=
    Lines.find_cases (rest ++ B)
  · unfold serve
    rw [Lines.split_of_find_none hnone]
    unfold serveLines
    rw [if_pos (by rw [List.length_append]; omega)]
  · have hmem : l.length + 1 ≤ 100 := hshort l (by rw [hs, Lines.split_line (by decide) hl]; simp)
    have hle := Lines.length_le_of_find_none (by decide) hrest hl hs
    omega

/-- What is owed once `B` follows a stream that `out` is owed to: more, if that does not shut
the connection down. -/
def andThen (out : List UInt8 × Option (List UInt8)) (B : List UInt8) :
    List UInt8 × Option (List UInt8) :=
  match out.2 with
  | none => (out.1, none)
  | some left => (out.1 ++ (serve (left ++ B)).1, (serve (left ++ B)).2)

/-- A line that a long enough stream begins with is taken first. -/
theorem serve_line {l stream : List UInt8} (hl : CrlfFree l)
    (hmany : kCells + 2 ≤ (l ++ 13 :: 10 :: stream).length) :
    serve (l ++ 13 :: 10 :: stream) = if (idAndPuzzle l).2.length = kCells then
      (reply (idAndPuzzle l).1 (answerOf (idAndPuzzle l).2) ++ (serve stream).1, (serve stream).2)
      else (badRequest, none) := by
  have hwhole := (Lines.split_spec (by decide : (13 : UInt8) ≠ 10) (l ++ 13 :: 10 :: stream)).1
  unfold serve
  rw [Lines.split_line (by decide) hl] at hwhole ⊢
  dsimp only at hwhole ⊢
  rw [serveLines, hwhole, if_neg (by omega)]

theorem serveLines_append {ls : List (List UInt8)} {rest B : List UInt8}
    (hls : ∀ l ∈ ls, CrlfFree l) (hrest : CrlfFree rest)
    (hshort : ShortLines (Lines.wire 13 10 ls ++ rest ++ B)) :
    serve (Lines.wire 13 10 ls ++ rest ++ B) = andThen (serveLines ls rest) B := by
  unfold andThen
  induction ls with
  | nil =>
    by_cases hlong : 100 < rest.length
    · simp only [serveLines, if_pos hlong]
      exact serve_too_long hrest hlong hshort
    · simp only [serveLines, if_neg hlong, List.nil_append]
      rfl
  | cons l ls ih =>
    have hl := hls l List.mem_cons_self
    have hline : Lines.wire 13 10 (l :: ls) ++ rest ++ B
        = l ++ 13 :: 10 :: (Lines.wire 13 10 ls ++ rest ++ B) := by
      rw [Lines.wire_cons]
      simp
    by_cases hfew : (Lines.wire 13 10 (l :: ls) ++ rest).length < kCells + 2
    · simp only [serveLines, if_pos hfew, List.nil_append]
    · rw [hline] at hshort ⊢
      have hshort' : ShortLines (Lines.wire 13 10 ls ++ rest ++ B) := by
        intro m hm
        refine hshort m ?_
        rw [Lines.split_line (by decide) hl]
        exact List.mem_cons_of_mem l hm
      rw [serve_line hl (by rw [← hline, List.length_append]; omega),
        ih (fun m hm => hls m (List.mem_cons_of_mem l hm)) hshort']
      by_cases hgood : (idAndPuzzle l).2.length = kCells
      · simp only [serveLines, if_neg hfew, if_pos hgood]
        cases (serveLines ls rest).2 with
        | none => rfl
        | some left => simp only [List.append_assoc]
      · simp only [serveLines, if_neg hfew, if_neg hgood]

/-- What is owed to a stream is owed to its beginning and then, if that does not shut the
connection down, to what stays in the buffer and the rest. -/
theorem serve_append {A B : List UInt8} (hshort : ShortLines (A ++ B)) :
    serve (A ++ B) = andThen (serve A) B := by
  obtain ⟨hwire, hls, hrest⟩ := Lines.split_spec (by decide : (13 : UInt8) ≠ 10) A
  rw [← hwire] at hshort
  have happend := serveLines_append hls hrest hshort
  rw [hwire] at happend
  exact happend

/-! ## Whole sessions -/

/-- The session has received the stream. -/
structure Served (stream : List UInt8) (s : Session) : Prop where
  valid : s.buffer.Valid
  sent : s.sent = (serve stream).1
  connected : s.connected = (serve stream).2.isSome
  content : ∀ left, (serve stream).2 = some left → s.buffer.content = left

/-- A connection on which nothing has arrived yet. -/
structure NewSession (s : Session) : Prop where
  valid : s.buffer.Valid
  empty : s.buffer.content = []
  connected : s.connected = true
  silent : s.sent = []

theorem NewSession.served {s : Session} (hs : NewSession s) : Served [] s := by
  refine ⟨hs.valid, hs.silent, hs.connected, ?_⟩
  intro left hleft
  rw [hs.empty]
  exact Option.some.inj hleft

/-- A segment is put into the buffer, and what is owed to its content is delivered. -/
theorem step_delivers (hfuel : kMaxNodes < fuel) {data : List UInt8} {s s' : Session}
    (hv : s.buffer.Valid) (h : Step mem fuel s data s') :
    ∃ b : Buffer, b.content = s.buffer.content ++ data ∧
      Delivered { s with buffer := b } (serve b.content) s' := by
  obtain ⟨-, hlen, b, hb, hm⟩ := h
  obtain ⟨hbv, hbc⟩ := (Buffer.readFd_spec hv hlen).of_ok hb
  obtain ⟨t, ht, hd⟩ := onMessage_delivers hfuel { s with buffer := b } hbv
  rw [hm] at ht
  obtain rfl := Option.some.inj ht
  exact ⟨b, hbc, hd⟩

/-- One segment more. -/
theorem step_served (hfuel : kMaxNodes < fuel) {A data : List UInt8} {s s' : Session}
    (hs : Served A s) (hshort : ShortLines (A ++ data)) (h : Step mem fuel s data s') :
    Served (A ++ data) s' := by
  obtain ⟨b, hbc, hd⟩ := step_delivers hfuel hs.valid h
  have hout := serve_append hshort
  unfold andThen at hout
  cases hleft : (serve A).2 with
  | none =>
    rw [hleft] at hout
    have hconn : s.connected = false := by rw [hs.connected, hleft]; rfl
    refine ⟨hd.valid, ?_, ?_, ?_⟩
    · rw [hd.sent, hout]
      simp only [hconn, Bool.false_eq_true, if_false]
      exact hs.sent
    · rw [hd.connected, hout]
      simp only [hconn, Bool.false_and, Option.isSome_none]
    · rw [hout]
      intro left hno
      cases hno
  | some left =>
    rw [hleft] at hout
    have hconn : s.connected = true := by rw [hs.connected, hleft]; rfl
    have hcontent : b.content = left ++ data := by rw [hbc, hs.content left hleft]
    have hd' : Delivered { s with buffer := b } (serve (left ++ data)) s' := hcontent ▸ hd
    refine ⟨hd.valid, ?_, ?_, ?_⟩
    · rw [hd'.sent, hout]
      simp only [hconn, if_true]
      rw [hs.sent]
    · rw [hd'.connected, hout]
      simp only [hconn, Bool.true_and]
    · rw [hout]
      exact hd'.content hconn

theorem run_served (hfuel : kMaxNodes < fuel) {A : List UInt8} {ds : List (List UInt8)}
    {s s' : Session} (hs : Served A s) (hshort : ShortLines (A ++ ds.flatten))
    (hr : Run (Step mem fuel) s ds s') : Served (A ++ ds.flatten) s' := by
  induction hr generalizing A with
  | nil s => simpa using hs
  | cons h _ ih =>
    rw [List.flatten_cons, ← List.append_assoc] at hshort ⊢
    exact ih (step_served hfuel hs hshort.of_append h) hshort

/-- Every call of `OnMessage` returns; and as long as no line has more than 99 bytes, it does
not matter where the network cuts the stream nor what the solvers find in their memory. -/
theorem segments_irrelevant {mem mem' : Nat → Nodes} {fuel fuel' : Nat}
    (hfuel : kMaxNodes < fuel) (hfuel' : kMaxNodes < fuel') {ds ds' : List (List UInt8)}
    (hsame : ds.flatten = ds'.flatten)
    (hshort : ∀ l ∈ (Lines.split 13 10 ds.flatten).1, l.length + 1 ≤ 100)
    {s₀ s₀' s s' : Session} (hs : NewSession s₀) (hs' : NewSession s₀')
    (hr : Run (Step mem fuel) s₀ ds s) (hr' : Run (Step mem' fuel') s₀' ds' s') :
    (∀ u : Session, u.buffer.Valid → ∃ u', onMessage mem fuel u = some u') ∧
      s.sent = s'.sent ∧ s.connected = s'.connected ∧
      (s.connected = true → s.buffer.content = s'.buffer.content) := by
  refine ⟨?_, ?_⟩
  · intro u hu
    obtain ⟨u', hu', -⟩ := onMessage_delivers hfuel u hu
    exact ⟨u', hu'⟩
  · have h := run_served hfuel hs.served hshort hr
    have h' := run_served hfuel' hs'.served (hsame ▸ hshort) hr'
    rw [List.nil_append] at h h'
    rw [← hsame] at h'
    refine ⟨h.sent.trans h'.sent.symm, h.connected.trans h'.connected.symm, ?_⟩
    intro hconn
    rw [h.connected] at hconn
    obtain ⟨left, hleft⟩ := Option.isSome_iff_exists.mp hconn
    rw [h.content left hleft, h'.content left hleft]

theorem idAndPuzzle_length (l : List UInt8) :
    l.length ≤ (idAndPuzzle l).1.length + 1 + (idAndPuzzle l).2.length := by
  unfold idAndPuzzle
  cases hfind : find ':' l with
  | some colon =>
    have hlen := congrArg List.length (Http.find_some hfind).1
    rw [List.length_append, List.length_cons] at hlen
    dsimp only
    omega
  | none =>
    dsimp only
    omega

/-- The bound is exact: a longer line gets `Id too long!` if the network cuts it before its
last byte, and something else if it arrives whole. -/
theorem long_line_depends_on_cut (hfuel : kMaxNodes < fuel) {l : List UInt8} (hl : CrlfFree l)
    (hlong : 100 ≤ l.length) {s₀ s s' : Session} (hs : NewSession s₀)
    (hcut : Run (Step mem fuel) s₀ [l ++ [13], [10]] s)
    (hwhole : Run (Step mem fuel) s₀ [l ++ [13, 10]] s') :
    s.sent = idTooLong ∧ s'.sent ≠ idTooLong := by
  constructor
  · obtain ⟨t, hfirst, hsecond⟩ : ∃ t, Step mem fuel s₀ (l ++ [13]) t ∧ Step mem fuel t [10] s := by
      cases hcut with
      | cons h₁ hrest =>
        cases hrest with
        | cons h₂ hnil =>
          cases hnil
          exact ⟨_, h₁, h₂⟩
    have hopen : CrlfFree (l ++ [13]) := Lines.find_open (by decide) hl
    have hshort : ShortLines (l ++ [13]) := by
      unfold ShortLines
      rw [Lines.split_of_find_none hopen]
      simp
    have hserve : serve (l ++ [13]) = (idTooLong, none) := by
      have hten := serve_too_long hopen (by rw [List.length_append]; exact Nat.lt_succ_of_le hlong)
        (B := []) (by rwa [List.append_nil])
      rwa [List.append_nil] at hten
    have ht : Served ([] ++ (l ++ [13])) t := step_served hfuel hs.served hshort hfirst
    rw [List.nil_append] at ht
    have hconn : t.connected = false := by rw [ht.connected, hserve]; rfl
    obtain ⟨b, -, hd⟩ := step_delivers hfuel ht.valid hsecond
    rw [hd.sent, if_neg (by simpa using hconn), ht.sent, hserve]
  · have hstep : Step mem fuel s₀ (l ++ [13, 10]) s' := by
      cases hwhole with
      | cons h hnil =>
        cases hnil
        exact h
    obtain ⟨b, hb, hd⟩ := step_delivers hfuel hs.valid hstep
    rw [hs.empty, List.nil_append] at hb
    rw [hd.sent, hb, if_pos hs.connected, hs.silent, List.nil_append,
      serve_line hl (by rw [List.length_append]; unfold kCells; omega)]
    split
    · rename_i hgood
      intro heq
      have hcolon : (58 : UInt8) ∈ idTooLong := by
        rw [← heq]
        refine List.mem_append_left _ ?_
        unfold reply
        rw [if_neg]
        · simp [ascii]
        · intro hid
          have hlen := idAndPuzzle_length l
          rw [List.isEmpty_iff.mp hid, hgood] at hlen
          simp only [List.length_nil, kCells] at hlen
          omega
      revert hcolon
      decide
    · decide

theorem readFd_fits {b : Buffer} (hv : b.Valid) {data : List UInt8}
    (hfit : data.length ≤ b.writableBytes) : b.readFd (.received data)
      = .ok ⟨b.written data, b.readerIndex, SizeT.add b.writerIndex data.length⟩ := by
  have hwr := Buffer.writableBytes_eq hv
  have hb := hv.bounded
  unfold Buffer.readFd
  dsimp only
  rw [if_pos hfit, Buffer.copyInto_written (by omega)]
  rfl

theorem retrieveUntil_room {b : Buffer} {w : Nat} (hw : Buffer.kCheapPrepend ≤ w)
    (hb : b.writerIndex ≤ w) (n : Nat) : (b.retrieveUntil n).writerIndex ≤ w ∧
      (b.retrieveUntil n).buffer = b.buffer := by
  unfold Buffer.retrieveUntil Buffer.retrieve
  split
  · exact ⟨hb, rfl⟩
  · exact ⟨hw, rfl⟩

theorem processRequest_buffer {mem : Nat → Nodes} {s s' : Session} {request : List UInt8}
    {good : Bool} (h : processRequest mem fuel s request = some (good, s')) :
    s'.buffer = s.buffer := by
  unfold processRequest at h
  dsimp only at h
  split at h
  · obtain ⟨result, -, hs⟩ := Option.bind_eq_some_iff.mp h
    cases hs
    exact Session.send_buffer ..
  · cases h
    rfl

/-- `OnMessage` only takes from the buffer, which keeps its room. -/
theorem messageLoop_room {mem : Nat → Nodes} {w : Nat} (hw : Buffer.kCheapPrepend ≤ w)
    (turns : Nat) {s s' : Session} (hb : s.buffer.writerIndex ≤ w)
    (h : messageLoop mem fuel turns s = some s') :
    s'.buffer.writerIndex ≤ w ∧ s'.buffer.buffer = s.buffer.buffer := by
  induction turns generalizing s with
  | zero => cases h
  | succ turns ih =>
    unfold messageLoop at h
    split at h
    · split at h
      · rename_i crlf _
        obtain ⟨hroom, hsame⟩ := retrieveUntil_room hw hb (crlf + 2)
        obtain ⟨⟨good, t⟩, hprocess, h⟩ := Option.bind_eq_some_iff.mp h
        have hbuffer := processRequest_buffer hprocess
        dsimp only at hbuffer h
        split at h
        · obtain ⟨hlast, hkept⟩ := ih (by rw [hbuffer]; exact hroom) h
          exact ⟨hlast, by rw [hkept, hbuffer, hsame]⟩
        · cases h
          simp only [Session.shutdown, Session.send_buffer, hbuffer]
          exact ⟨hroom, hsame⟩
      · split at h
        · cases h
          rw [Session.shutdown, Session.send_buffer]
          exact ⟨hb, rfl⟩
        · cases h
          exact ⟨hb, rfl⟩
    · cases h
      exact ⟨hb, rfl⟩

/-- A segment that fits in the writable region arrives. -/
theorem step_fits (mem : Nat → Nodes) (hfuel : kMaxNodes < fuel) {s : Session}
    (hv : s.buffer.Valid) (data : List UInt8) (hne : data ≠ [])
    (hfit : data.length ≤ s.buffer.writableBytes) : ∃ s', Step mem fuel s data s' := by
  have hread := readFd_fits hv hfit
  obtain ⟨hbv, -⟩ := (Buffer.readFd_spec hv (Nat.le_add_right_of_le hfit)).of_ok hread
  obtain ⟨s', hs', -⟩ := onMessage_delivers hfuel { s with buffer := _ } hbv
  exact ⟨s', hne, Nat.le_add_right_of_le hfit, _, hread, hs'⟩

/-- It takes no more room than its length. -/
theorem step_room {mem : Nat → Nodes} (hfuel : kMaxNodes < fuel) {s s' : Session}
    {data : List UInt8} (hv : s.buffer.Valid)
    (hheader : Buffer.kCheapPrepend ≤ s.buffer.writerIndex)
    (hfit : data.length ≤ s.buffer.writableBytes) (h : Step mem fuel s data s') :
    s'.buffer.Valid ∧ s.buffer.writableBytes ≤ s'.buffer.writableBytes + data.length := by
  obtain ⟨-, hl, b, hread, hs'⟩ := h
  obtain ⟨hbv, -⟩ := (Buffer.readFd_spec hv hl).of_ok hread
  rw [readFd_fits hv hfit] at hread
  cases hread
  obtain ⟨t, ht, hd⟩ := onMessage_delivers hfuel { s with buffer := _ } hbv
  cases ht.symm.trans hs'
  have hwr := Buffer.writableBytes_eq hv
  have hbounded := hv.bounded
  have hlen := Buffer.length_lt hv
  have hwritten : (s.buffer.written data).length = s.buffer.buffer.length :=
    Buffer.written_length (by omega)
  have hadd : SizeT.add s.buffer.writerIndex data.length = s.buffer.writerIndex + data.length :=
    SizeT.add_exact (by omega)
  have hroom := messageLoop_room (w := s.buffer.writerIndex + data.length) (by omega) _
    (Nat.le_of_eq hadd) hs'
  have hwr' := Buffer.writableBytes_eq hd.valid
  rw [hroom.2, hwritten] at hwr'
  exact ⟨hd.valid, by omega⟩

/-- A connection with room for 192 bytes. -/
def idleSession : Session := ⟨⟨List.replicate 200 0, 8, 8⟩, true, [], 0⟩

theorem idleSession_new : NewSession idleSession :=
  ⟨⟨by decide +kernel, by decide +kernel, by decide +kernel, by decide +kernel⟩,
    by decide +kernel, rfl, rfl⟩

/-- The same after one byte. -/
def oneByteSession (c : UInt8) : Session :=
  ⟨⟨idleSession.buffer.written [c], 8, 9⟩, true, [], 0⟩

theorem oneByte_valid (c : UInt8) : (oneByteSession c).buffer.Valid := by
  have hin : idleSession.buffer.writerIndex + [c].length ≤ idleSession.buffer.buffer.length := by
    rw [show idleSession.buffer.buffer.length = 200 from List.length_replicate]
    show 8 + 1 ≤ 200
    decide
  exact (Buffer.written_spec (n := 9) idleSession_new.valid hin rfl).1

theorem step_oneByte (mem : Nat → Nodes) (fuel : Nat) (c : UInt8) :
    Step mem fuel idleSession [c] (oneByteSession c) := by
  have hroom : idleSession.buffer.writableBytes = 192 := by decide +kernel
  have hfit : [c].length ≤ idleSession.buffer.writableBytes := by
    rw [hroom]
    show 1 ≤ 192
    decide
  have hread := readFd_fits idleSession_new.valid hfit
  have hadd : SizeT.add idleSession.buffer.writerIndex [c].length = 9 :=
    SizeT.add_exact (by show 8 + 1 < 2 ^ 64; decide)
  rw [hadd] at hread
  refine ⟨by simp, Nat.le_add_right_of_le hfit, _, hread, ?_⟩
  have hone : (oneByteSession c).buffer.readableBytes = 1 :=
    Buffer.readableBytes_eq (oneByte_valid c)
  show messageLoop mem fuel ((oneByteSession c).buffer.readableBytes + 1) (oneByteSession c)
    = some (oneByteSession c)
  rw [messageLoop, if_neg (by rw [hone]; decide)]

/-- A line that is no request, whole and with a cut after its first byte. -/
theorem bad_line_cut : ∃ s s',
    Run (Step (fun _ => memoryOf 7) (kMaxNodes + 1)) idleSession
      [49 :: List.replicate 90 50 ++ [13, 10]] s ∧
    Run (Step (fun _ => memoryOf 8) (kMaxNodes + 1)) idleSession
      [[49], List.replicate 90 50 ++ [13, 10]] s' ∧
    s.sent = s'.sent ∧ s.connected = s'.connected := by
  have hfuel := Nat.lt_succ_self kMaxNodes
  obtain ⟨s, hs⟩ := step_fits (fun _ => memoryOf 7) hfuel idleSession_new.valid
    (49 :: List.replicate 90 50 ++ [13, 10]) (by simp) (by decide +kernel)
  obtain ⟨s', hs'⟩ := step_fits (fun _ => memoryOf 8) hfuel (oneByte_valid 49)
    (List.replicate 90 50 ++ [13, 10]) (by simp) (by decide +kernel)
  have hr := Run.single hs
  have hr' := Run.cons (step_oneByte (fun _ => memoryOf 8) (kMaxNodes + 1) 49) (Run.single hs')
  have hsame : [49 :: List.replicate 90 50 ++ [13, 10]].flatten
      = [[49], List.replicate 90 (50 : UInt8) ++ [13, 10]].flatten := by decide +kernel
  obtain ⟨-, hsent, hconn, -⟩ := segments_irrelevant hfuel hfuel hsame (by decide +kernel)
    idleSession_new idleSession_new hr hr'
  exact ⟨s, s', hr, hr', hsent, hconn⟩

/-! ## Requests -/

/-- A request with its `id`, which may be empty. -/
structure Request where
  id : List UInt8
  puzzle : List UInt8
  idColon : 58 ∉ id
  puzzleColon : id = [] → 58 ∉ puzzle
  size : puzzle.length = kCells
  short : id.length ≤ 17
  crlfFree : CrlfFree (if id.isEmpty then puzzle else id ++ 58 :: puzzle)

namespace Request

def line (r : Request) : List UInt8 := if r.id.isEmpty then r.puzzle else r.id ++ 58 :: r.puzzle

theorem idAndPuzzle_line (r : Request) : idAndPuzzle r.line = (r.id, r.puzzle) := by
  unfold idAndPuzzle line
  by_cases hid : r.id = []
  · have habsent : find ':' r.puzzle = none := Http.find_absent (r.puzzleColon hid)
    rw [if_pos (List.isEmpty_iff.mpr hid), habsent, hid]
  · have hfirst : find ':' (r.id ++ 58 :: r.puzzle) = some r.id.length :=
      Http.find_first r.idColon r.puzzle
    rw [if_neg (by simpa using hid), hfirst]
    simp

theorem line_length (r : Request) : kCells ≤ r.line.length ∧ r.line.length + 1 ≤ 100 := by
  have hsize := r.size
  have hshort := r.short
  unfold line
  unfold kCells at hsize ⊢
  split
  · omega
  · rw [List.length_append, List.length_cons]
    omega

end Request

/-- Requests that have arrived are answered at once. -/
theorem serveLines_requests {rest : List UInt8} (hrest : rest.length ≤ 100) (reqs : List Request) :
    serveLines (reqs.map Request.line) rest
      = (reqs.flatMap fun r => reply r.id (answerOf r.puzzle), some rest) := by
  induction reqs with
  | nil =>
    show serveLines [] rest = ([], some rest)
    rw [serveLines, if_neg (by omega)]
  | cons r reqs ih =>
    have hlen := r.line_length.1
    have hmany : ¬(Lines.wire 13 10 (r.line :: reqs.map Request.line) ++ rest).length
        < kCells + 2 := by
      rw [Lines.wire_cons, List.length_append, List.length_append, List.length_cons,
        List.length_cons]
      omega
    rw [List.map_cons, serveLines, if_neg hmany, r.idAndPuzzle_line, if_pos r.size, ih]
    rfl

/-- A part of a stream of requests is a number of requests and less than another one. -/
theorem requests_prefix {reqs : List Request} {stream more : List UInt8}
    (h : stream ++ more = Lines.wire 13 10 (reqs.map Request.line)) :
    ShortLines stream ∧ serve stream
      = ((reqs.take (Lines.completeLines (reqs.map Request.line) stream.length)).flatMap
          fun r => reply r.id (answerOf r.puzzle),
        some (stream.drop (Lines.wire 13 10 ((reqs.take (Lines.completeLines
          (reqs.map Request.line) stream.length)).map Request.line)).length)) := by
  have hfree : ∀ l ∈ reqs.map Request.line, CrlfFree l := by
    intro l hl
    obtain ⟨r, -, rfl⟩ := List.mem_map.mp hl
    exact r.crlfFree
  have hwhole : ShortLines (stream ++ more) := by
    intro l hl
    rw [h, ← List.append_nil (Lines.wire 13 10 (reqs.map Request.line)),
      Lines.split_wire (by decide) hfree] at hl
    simp only [Lines.split, List.append_nil, List.mem_map] at hl
    obtain ⟨r, -, rfl⟩ := hl
    exact r.line_length.2
  have hlen : stream.length ≤ (Lines.wire 13 10 (reqs.map Request.line)).length := by
    rw [← h, List.length_append]
    omega
  have hk : stream.length < (Lines.wire 13 10 (reqs.map Request.line) ++ [13, 10]).length := by
    rw [List.length_append]
    exact Nat.lt_of_le_of_lt hlen (by simp)
  obtain ⟨p, hp, hnone⟩ := Lines.take_wire (by decide) hfree hk
  rw [List.take_append_of_le_length hlen, ← h, List.take_left, ← List.map_take] at hp
  generalize hn : Lines.completeLines (reqs.map Request.line) stream.length = n at hp
  have hsplit : Lines.split 13 10 stream = ((reqs.take n).map Request.line, p) := by
    rw [hp, Lines.split_wire (by decide), Lines.split_of_find_none hnone, List.append_nil]
    intro l hl
    rw [List.map_take] at hl
    exact hfree l (List.mem_of_mem_take hl)
  have hmore : p ++ more = Lines.wire 13 10 ((reqs.drop n).map Request.line) := by
    have hsum : reqs.map Request.line
        = (reqs.take n).map Request.line ++ (reqs.drop n).map Request.line := by
      rw [← List.map_append, List.take_append_drop]
    rw [hp, hsum, Lines.wire_append, List.append_assoc] at h
    exact List.append_cancel_left h
  have hshort : p.length ≤ 100 := by
    cases hdrop : reqs.drop n with
    | nil =>
      rw [hdrop] at hmore
      rw [(List.append_eq_nil_iff.mp hmore).1]
      exact Nat.zero_le 100
    | cons r rs =>
      rw [hdrop, List.map_cons, Lines.wire_cons] at hmore
      have hle := Lines.length_le_of_find_none (by decide) hnone r.crlfFree hmore
      have hline := r.line_length.2
      unfold Request.line at hline
      omega
  refine ⟨hwhole.of_append, ?_⟩
  have hdrop : stream.drop (Lines.wire 13 10 ((reqs.take n).map Request.line)).length = p := by
    rw [hp, List.drop_left]
  rw [serve, hsplit, hdrop]
  exact serveLines_requests hshort (reqs.take n)

/-- While a stream of requests arrives, in whatever segments, the requests that have arrived
completely are answered, in order, each with its `id`, and each rightly. -/
theorem requests_answered_in_order {mem : Nat → Nodes} {fuel : Nat} (hfuel : kMaxNodes < fuel)
    {reqs : List Request} {ds : List (List UInt8)} {more : List UInt8}
    (hds : ds.flatten ++ more = Lines.wire 13 10 (reqs.map Request.line)) {s₀ s : Session}
    (hs : NewSession s₀) (hr : Run (Step mem fuel) s₀ ds s) :
    s.connected = true ∧ ∃ answer : List UInt8 → List UInt8,
      (∀ r ∈ reqs, Answers r.puzzle (answer r.puzzle)) ∧
      s.sent = (reqs.take (Lines.completeLines (reqs.map Request.line)
        ds.flatten.length)).flatMap fun r => reply r.id (answer r.puzzle) := by
  obtain ⟨hshort, hserve⟩ := requests_prefix hds
  have h := run_served hfuel hs.served hshort hr
  rw [List.nil_append] at h
  refine ⟨?_, answerOf, ?_, ?_⟩
  · rw [h.connected, hserve]
    rfl
  · intro r _
    exact (solveSudoku_answerOf (mem 0) hfuel r.size).2
  · rw [h.sent, hserve]

/-- A request with `a` as its `id`. -/
def sampleRequest : Request where
  id := [97]
  puzzle := lastCellPuzzle
  idColon := by decide
  puzzleColon := by decide
  size := by decide +kernel
  short := by decide
  crlfFree := by unfold CrlfFree; decide +kernel

/-- The same puzzle without an `id`. -/
def plainRequest : Request where
  id := []
  puzzle := lastCellPuzzle
  idColon := by decide
  puzzleColon := by decide +kernel
  size := by decide +kernel
  short := by decide
  crlfFree := by unfold CrlfFree; decide +kernel

/-- One request and the beginning of another one. -/
def firstSegment : List UInt8 := 97 :: 58 :: lastCellPuzzle ++ 13 :: 10 :: lastCellPuzzle.take 40

def secondSegment : List UInt8 := lastCellPuzzle.drop 40 ++ [13, 10]

theorem two_requests_answered : ∃ s answer,
    Run (Step (fun _ => memoryOf 7) (kMaxNodes + 1)) idleSession [firstSegment, secondSegment] s ∧
    Answers lastCellPuzzle answer ∧
    s.sent = 97 :: 58 :: answer ++ [13, 10] ++ (answer ++ [13, 10]) := by
  have hfuel := Nat.lt_succ_self kMaxNodes
  have hfits : firstSegment.length ≤ idleSession.buffer.writableBytes := by decide +kernel
  have hroom : firstSegment.length + secondSegment.length ≤ idleSession.buffer.writableBytes := by
    decide +kernel
  obtain ⟨t, ht⟩ := step_fits (fun _ => memoryOf 7) hfuel idleSession_new.valid firstSegment
    (List.cons_ne_nil _ _) hfits
  obtain ⟨hvalid, hleft⟩ := step_room hfuel idleSession_new.valid (by decide) hfits ht
  obtain ⟨s, hs⟩ := step_fits (fun _ => memoryOf 7) hfuel hvalid secondSegment
    (List.append_ne_nil_of_right_ne_nil _ (List.cons_ne_nil _ _)) (by omega)
  have hr := Run.cons ht (Run.single hs)
  have hds : [firstSegment, secondSegment].flatten ++ []
      = Lines.wire 13 10 ([sampleRequest, plainRequest].map Request.line) := by decide +kernel
  obtain ⟨-, answer, hanswers, hsent⟩ := requests_answered_in_order hfuel hds idleSession_new hr
  have hall : Lines.completeLines ([sampleRequest, plainRequest].map Request.line)
      [firstSegment, secondSegment].flatten.length = 2 := by decide +kernel
  rw [hall] at hsent
  refine ⟨s, answer lastCellPuzzle, hr, hanswers sampleRequest List.mem_cons_self, ?_⟩
  rw [hsent]
  simp [sampleRequest, plainRequest, reply, ascii]

end RyanNetwork.Servers.SudokuServer
