import RyanNetwork.Http.Termination

/-!
# What `ParseRequest` answers

`ok` starts as false and is written in the branch of the request line only. A call that
finds no complete request line, or that starts among the headers, therefore answers
false although nothing is wrong. `HttpServer::OnMessage` takes that for a bad request.
-/
namespace RyanNetwork.Http.Answers

open Lib HttpContext

set_option autoImplicit false

/-- A context and the buffer that its calls read. -/
structure Conversation where
  context : HttpContext
  buffer : Buffer

inductive Action where
  | append (data : List UInt8)
  | parseRequest (receiveTime : Int)

/-- Bytes are appended, or `ParseRequest` is called on a context that holds no complete
request yet. An `Append` that throws and a call that does not return are not steps. -/
def Step (s : Conversation) : Action → Conversation → Prop
  | .append data, t => s.buffer.append data = .ok t.buffer ∧ t.context = s.context
  | .parseRequest receiveTime, t =>
    s.context.gotAll = false ∧
      ∃ ok, s.context.parseRequest s.buffer receiveTime = some (ok, t.context, t.buffer)

/-- The buffer holds a complete line in `kExpectRequestLine`, which is rejected. -/
def Rejects (s : Conversation) : Prop :=
  s.context.state = .kExpectRequestLine ∧
    ∃ crlf, findCRLF s.buffer = some crlf ∧
      (processRequestLine s.context.request (s.buffer.content.take crlf)).1 = false

/-- The call returns, and answers false exactly for a rejected request line. -/
def ReportsError (s : Conversation) (receiveTime : Int) : Prop :=
  ∃ ok c b, s.context.parseRequest s.buffer receiveTime = some (ok, c, b) ∧
    (ok = false ↔ Rejects s)

/-- A complete request line is there to be processed. -/
def AtRequestLine (s : Conversation) : Prop :=
  s.context.state = .kExpectRequestLine ∧ findCRLF s.buffer ≠ none

/-- What every step keeps. -/
structure Sound (s : Conversation) : Prop where
  valid : s.buffer.Valid
  noBody : s.context.state ≠ .kExpectBody

theorem step_sound {s t : Conversation} {a : Action} (hs : Sound s) (h : Step s a t) :
    Sound t := by
  cases a with
  | append data =>
    obtain ⟨hb, hc⟩ := h
    refine ⟨(Buffer.append_ok hs.valid hb).1, ?_⟩
    rw [hc]
    exact hs.noBody
  | parseRequest receiveTime =>
    obtain ⟨hg, ok, h⟩ := h
    obtain ⟨b', hread, hv, -⟩ :=
      parseRequest_readLines receiveTime (Termination.awaits_line hs.noBody hg) hs.valid
    refine ⟨?_, Termination.parseLoop_state hs.noBody h⟩
    rw [hread] at h
    obtain ⟨-, hrest⟩ := Prod.mk.inj (Option.some.inj h)
    rw [← (Prod.mk.inj hrest).2]
    exact hv

/-- Header lines do not change the answer. -/
theorem readLines_answer {t : Int} {c : HttpContext} {ok : Bool} (hs : c.state = .kExpectHeaders)
    (ls : List (List UInt8)) : (readLines t c ok ls).1 = ok := by
  induction ls generalizing c with
  | nil => rfl
  | cons l ls ih =>
    by_cases hk : 58 ∈ l
    · rw [readLines_header hs hk]
      exact ih hs
    · rw [readLines_noColon hs hk]

/-- The first complete line ends where the search finds its terminator. -/
theorem completed_cases (b : Buffer) : findCRLF b = none ∧ completed b = [] ∨
    ∃ crlf ls, findCRLF b = some crlf ∧ completed b = b.content.take crlf :: ls := by
  obtain hnone | ⟨line, rest, hc, hfree⟩ : Lines.find 13 10 b.content = none ∨
      ∃ l rest, b.content = l ++ 13 :: 10 :: rest ∧ Lines.find 13 10 l = none :=
    Lines.find_cases b.content
  · refine Or.inl ⟨hnone, ?_⟩
    unfold completed
    rw [Lines.split_of_find_none hnone]
  · obtain ⟨hcrlf, htake, -⟩ := findCRLF_line hfree hc
    refine Or.inr ⟨line.length, (Lines.split 13 10 rest).1, hcrlf, ?_⟩
    unfold completed
    rw [htake, hc, Lines.split_line (by decide) hfree]

/-- A call answers false unless it processes a request line, and then it answers what
`ProcessRequestLine` does. -/
theorem answer_eq {s : Conversation} (hs : Sound s) (hg : s.context.gotAll = false) (t : Int) :
    ∃ ok c b, s.context.parseRequest s.buffer t = some (ok, c, b) ∧
      (ok = true ↔ AtRequestLine s ∧ ¬Rejects s) := by
  obtain ⟨b', hread, -⟩ := parseRequest_readLines t (Termination.awaits_line hs.noBody hg) hs.valid
  refine ⟨_, _, b', hread, ?_⟩
  rcases Termination.awaits_line hs.noBody hg with hstate | hstate
  · rcases completed_cases s.buffer with ⟨hnone, hls⟩ | ⟨crlf, ls, hsome, hls⟩
    · rw [hls]
      constructor
      · intro h
        cases h
      · rintro ⟨⟨-, hne⟩, -⟩
        exact absurd hnone hne
    · rw [hls, readLines_requestLine hstate]
      have hat : AtRequestLine s := ⟨hstate, by rw [hsome]; simp⟩
      split
      · rename_i haccept
        rw [readLines_answer rfl]
        refine ⟨fun _ => ⟨hat, ?_⟩, fun _ => rfl⟩
        rintro ⟨-, crlf', hsome', hreject⟩
        cases hsome.symm.trans hsome'
        rw [haccept] at hreject
        cases hreject
      · rename_i hreject
        constructor
        · intro h
          cases h
        · rintro ⟨-, hnot⟩
          exact absurd ⟨hstate, crlf, hsome, by simpa using hreject⟩ hnot
  · rw [readLines_answer hstate]
    constructor
    · intro h
      cases h
    · rintro ⟨⟨hline, -⟩, -⟩
      rw [hstate] at hline
      cases hline

/-- After every run of appends and calls on a fresh context, while no request is
complete: a further call returns, and it answers false exactly for a rejected request
line, if and only if a complete request line is there to be processed. -/
theorem parseRequest_reports_iff {b : Buffer} (hb : b.Valid) {s : Conversation}
    {acts : List Action} (hr : Run Step ⟨.new, b⟩ acts s) (hg : s.context.gotAll = false)
    (t : Int) : ReportsError s t ↔ AtRequestLine s := by
  have hs : Sound s := hr.invariant (fun _ _ _ hi h => step_sound hi h)
    ⟨hb, by simp [HttpContext.new]⟩
  obtain ⟨ok, c, b', hcall, hiff⟩ := answer_eq hs hg t
  constructor
  · rintro ⟨ok', c', b'', hcall', hreport⟩
    cases hcall.symm.trans hcall'
    cases ok with
    | true => exact (hiff.mp rfl).1
    | false =>
      obtain ⟨hstate, crlf, hsome, -⟩ := hreport.mp rfl
      exact ⟨hstate, by rw [hsome]; simp⟩
  · intro hat
    refine ⟨ok, c, b', hcall, ?_⟩
    constructor
    · rintro rfl
      by_contra hnot
      cases hiff.mpr ⟨hat, hnot⟩
    · intro hrej
      rw [Bool.eq_false_iff]
      intro htrue
      exact (hiff.mp htrue).2 hrej

/-- Appending to a buffer that holds nothing and has no room. -/
theorem append_first (data : List UInt8)
    (h : (holding []).append data = .ok (holding data)) :
    Run Step ⟨.new, holding []⟩ [.append data] ⟨.new, holding data⟩ :=
  .single ⟨h, rfl⟩

/-- A request line with a third space is rejected, and the call says so. -/
theorem rejected_line_reported :
    ∃ s, Run Step ⟨.new, holding []⟩ [.append (ascii "GET / HTTP/1.1 \r\n")] s ∧
      ReportsError s 0 := by
  have hrun := append_first (ascii "GET / HTTP/1.1 \r\n") (by decide +kernel)
  refine ⟨_, hrun, (parseRequest_reports_iff (holding_spec [] (by decide)).1 hrun rfl 0).mpr ?_⟩
  exact ⟨rfl, by decide +kernel⟩

/-- A call on a beginning of a request line answers false, and so does the call that
completes the request after an earlier one has read its request line. -/
theorem unfinished_requests_reported :
    ∃ s s' : Conversation,
      Run Step ⟨.new, holding []⟩ [.append (ascii "GET / HT")] s ∧
      s.context.gotAll = false ∧ (∃ c b, s.context.parseRequest s.buffer 0 = some (false, c, b)) ∧
      ¬ReportsError s 0 ∧
      Run Step ⟨.new, holding []⟩
        [.append (ascii "GET / HTTP/1.1\r\n"), .parseRequest 0, .append (ascii "\r\n")] s' ∧
      s'.context.gotAll = false ∧
      (∃ c b, s'.context.parseRequest s'.buffer 1 = some (false, c, b) ∧ c.gotAll = true) ∧
      ¬ReportsError s' 1 := by
  have hfirst := append_first (ascii "GET / HT") (by decide +kernel)
  have hline := append_first (ascii "GET / HTTP/1.1\r\n") (by decide +kernel)
  have hanswer : ((HttpContext.new.parseRequest (holding (ascii "GET / HT")) 0).map
      fun r => r.1) = some false := by decide +kernel
  obtain ⟨⟨ok, c, b⟩, hcall, rfl⟩ := Option.map_eq_some_iff.mp hanswer
  have hparsed : ((HttpContext.new.parseRequest (holding (ascii "GET / HTTP/1.1\r\n")) 0).map
      fun r => (r.2.1.state, r.2.2.append (ascii "\r\n"))) =
      some (.kExpectHeaders, .ok ⟨List.replicate 8 0 ++ ascii "\r\nT / HTTP/1.1\r\n", 8, 10⟩) := by
    decide +kernel
  obtain ⟨⟨ok', c', b'⟩, hcall', hr'⟩ := Option.map_eq_some_iff.mp hparsed
  obtain ⟨hstate, hmore⟩ := Prod.mk.inj hr'
  have hparse : Step ⟨.new, holding (ascii "GET / HTTP/1.1\r\n")⟩ (.parseRequest 0) ⟨c', b'⟩ :=
    ⟨rfl, ok', hcall'⟩
  have happend : Step ⟨c', b'⟩ (.append (ascii "\r\n"))
      ⟨c', ⟨List.replicate 8 0 ++ ascii "\r\nT / HTTP/1.1\r\n", 8, 10⟩⟩ := ⟨hmore, rfl⟩
  have hempty : CrlfFree [] := rfl
  have hcontent : Buffer.content
      ⟨List.replicate 8 0 ++ ascii "\r\nT / HTTP/1.1\r\n", 8, 10⟩ = [] ++ 13 :: 10 :: [] := by
    decide
  have hlast : c'.parseRequest ⟨List.replicate 8 0 ++ ascii "\r\nT / HTTP/1.1\r\n", 8, 10⟩ 1 =
      some (false, { c' with state := .kGotAll }, _) :=
    parseLoop_noColon hstate hempty (by simp) hcontent
  refine ⟨_, _, hfirst, rfl, ⟨c, b, hcall⟩, ?_, hline.append (.cons hparse (.single happend)), ?_,
    ⟨_, _, hlast, rfl⟩, ?_⟩
  · rintro ⟨ok, d, b, hd, hreport⟩
    cases hcall.symm.trans hd
    obtain ⟨-, crlf, hsome, -⟩ := hreport.mp rfl
    have hnone : findCRLF (holding (ascii "GET / HT")) = none := by decide
    cases hnone.symm.trans hsome
  · change c'.gotAll = false
    unfold gotAll
    rw [hstate]
    rfl
  · rintro ⟨ok, d, b, hd, hreport⟩
    cases hlast.symm.trans hd
    cases hstate.symm.trans (hreport.mp rfl).1

end RyanNetwork.Http.Answers
