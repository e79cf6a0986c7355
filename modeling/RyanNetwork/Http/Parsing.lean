import RyanNetwork.Http.Context

/-!
# What `ParseRequest` reads, line by line

The readable bytes are complete lines and the beginning of one that is left alone.
`readLines` is the loop of `ParseRequest` over the complete lines: it stops at a line
that is no request line, or after the first header line without a colon.
-/
namespace RyanNetwork.Http

open Lib HttpContext

set_option autoImplicit false

/-! ## Lines and requests -/

/-- `ProcessRequestLine` succeeds on the line. -/
def Accepted (line : List UInt8) : Prop := (processRequestLine .new line).1 = true

instance : DecidablePred Accepted := fun line =>
  inferInstanceAs (Decidable ((processRequestLine .new line).1 = true))

/-- A header line added to the request. -/
def addLine (r : HttpRequest) (line : List UInt8) : HttpRequest :=
  match find ':' line with
  | some colon => r.addHeader line colon
  | none => r

/-- The request that a request line and header lines make up. -/
def parseLines : List (List UInt8) → HttpRequest
  | [] => .new
  | line :: headers => headers.foldl addLine (processRequestLine .new line).2

/-- Equal in everything but the time of arrival. -/
structure SameRequest (a b : HttpRequest) : Prop where
  method : a.method = b.method
  path : a.path = b.path
  query : a.query = b.query
  version : a.version = b.version
  headers : a.headers = b.headers

theorem SameRequest.symm {a b : HttpRequest} (h : SameRequest a b) : SameRequest b a :=
  ⟨h.method.symm, h.path.symm, h.query.symm, h.version.symm, h.headers.symm⟩

theorem SameRequest.trans {a b c : HttpRequest} (h : SameRequest a b) (h' : SameRequest b c) :
    SameRequest a c :=
  ⟨h.method.trans h'.method, h.path.trans h'.path, h.query.trans h'.query,
    h.version.trans h'.version, h.headers.trans h'.headers⟩

theorem sameRequest_addLine {a b : HttpRequest} (h : SameRequest a b) (line : List UInt8) :
    SameRequest (addLine a line) (addLine b line) := by
  unfold addLine
  split
  · exact ⟨h.method, h.path, h.query, h.version, by simp [HttpRequest.addHeader, h.headers]⟩
  · exact h

theorem sameRequest_foldl {a b : HttpRequest} (h : SameRequest a b) (headers : List (List UInt8)) :
    SameRequest (headers.foldl addLine a) (headers.foldl addLine b) := by
  induction headers generalizing a b with
  | nil => exact h
  | cons line headers ih => exact ih (sameRequest_addLine h line)

/-- Whether the search for a CRLF finds none in the line. -/
def CrlfFree (line : List UInt8) : Prop := Lines.find 13 10 line = none

instance : DecidablePred CrlfFree := fun line =>
  inferInstanceAs (Decidable (Lines.find 13 10 line = none))

/-- A request line that `ProcessRequestLine` accepts, and header lines with a colon. -/
structure WellFormedRequest where
  requestLine : List UInt8
  headerLines : List (List UInt8)
  accepted : Accepted requestLine
  crlfFree : ∀ line ∈ requestLine :: headerLines, CrlfFree line
  colon : ∀ line ∈ headerLines, 58 ∈ line

namespace WellFormedRequest

def lines (w : WellFormedRequest) : List (List UInt8) := w.requestLine :: w.headerLines

/-- The request as it is sent: its lines, then an empty one. -/
def bytes (w : WellFormedRequest) : List UInt8 := Lines.wire 13 10 w.lines ++ [13, 10]

end WellFormedRequest

/-! ## Searching for one character -/

section Find

variable {c : Char} {s l : List UInt8} {i : Nat}

theorem find_absent (h : c.toNat.toUInt8 ∉ s) : find c s = none := by
  apply List.findIdx?_eq_none_iff.mpr
  intro x hx
  rw [decide_eq_false_iff_not]
  rintro rfl
  exact h hx

theorem absent_of_find (h : find c s = none) : c.toNat.toUInt8 ∉ s := by
  intro hm
  have hno := List.findIdx?_eq_none_iff.mp h _ hm
  simp at hno

/-- The search finds the first occurrence. -/
theorem find_first (h : c.toNat.toUInt8 ∉ l) (rest : List UInt8) :
    find c (l ++ c.toNat.toUInt8 :: rest) = some l.length := by
  have hl : l.findIdx? (· = c.toNat.toUInt8) = none := find_absent h
  unfold find
  rw [List.findIdx?_append, hl, List.findIdx?_cons]
  simp

/-- What is found is the first occurrence. -/
theorem find_some (h : find c s = some i) :
    s = s.take i ++ c.toNat.toUInt8 :: s.drop (i + 1) ∧ c.toNat.toUInt8 ∉ s.take i := by
  obtain ⟨hi, hat, hbefore⟩ := List.findIdx?_eq_some_iff_getElem.mp h
  have hat : s[i] = c.toNat.toUInt8 := of_decide_eq_true hat
  constructor
  · rw [← hat, List.getElem_cons_drop, List.take_append_drop]
  · intro hm
    obtain ⟨j, hj, he⟩ := List.getElem_of_mem hm
    rw [List.length_take] at hj
    rw [List.getElem_take] at he
    exact hbefore j (by omega) (decide_eq_true he)

end Find

/-! ## Turns of the loop -/

theorem retrieveUntil_spec {b : Buffer} (hv : b.Valid) (n : Nat) :
    (b.retrieveUntil n).Valid ∧ (b.retrieveUntil n).content = b.content.drop n :=
  Buffer.retrieve_spec hv n

theorem findCRLF_line {b : Buffer} {line rest : List UInt8} (hl : CrlfFree line)
    (hc : b.content = line ++ 13 :: 10 :: rest) :
    findCRLF b = some line.length ∧ b.content.take line.length = line ∧
      b.content.drop (line.length + 2) = rest := by
  unfold findCRLF
  rw [hc]
  refine ⟨Lines.find_line (by decide) hl rest, by simp, ?_⟩
  rw [List.drop_append]
  simp

/-- One turn of the loop over a header line. -/
theorem parseLoop_header {t : Int} {fuel : Nat} {c : HttpContext} {b : Buffer} {ok : Bool}
    {line rest : List UInt8} (hs : c.state = .kExpectHeaders) (hl : CrlfFree line) (hk : 58 ∈ line)
    (hc : b.content = line ++ 13 :: 10 :: rest) :
    parseLoop t (fuel + 1) c b ok =
      parseLoop t fuel { c with request := addLine c.request line }
        (b.retrieveUntil (line.length + 2)) ok := by
  obtain ⟨hcr, htake, -⟩ := findCRLF_line hl hc
  cases hcol : find ':' line with
  | none => exact absurd hk (absent_of_find hcol)
  | some colon => simp only [parseLoop, hs, hcr, htake, hcol, HttpContext.addHeader, addLine]

/-- A header line without a colon ends the request. -/
theorem parseLoop_noColon {t : Int} {fuel : Nat} {c : HttpContext} {b : Buffer} {ok : Bool}
    {line rest : List UInt8} (hs : c.state = .kExpectHeaders) (hl : CrlfFree line)
    (hk : 58 ∉ line) (hc : b.content = line ++ 13 :: 10 :: rest) :
    parseLoop t (fuel + 1) c b ok =
      some (ok, { c with state := .kGotAll }, b.retrieveUntil (line.length + 2)) := by
  obtain ⟨hcr, htake, -⟩ := findCRLF_line hl hc
  have hcolon : find ':' line = none := find_absent hk
  simp only [parseLoop, hs, hcr, htake, hcolon]

/-- Without a complete line the loop ends where it is. -/
theorem parseLoop_incomplete {t : Int} {fuel : Nat} {c : HttpContext} {b : Buffer} {ok : Bool}
    (hs : c.state = .kExpectRequestLine ∨ c.state = .kExpectHeaders) (hf : CrlfFree b.content) :
    parseLoop t (fuel + 1) c b ok = some (ok, c, b) := by
  have hnone : findCRLF b = none := hf
  rcases hs with hs | hs
  · simp only [parseLoop, hs, hnone]
  · simp only [parseLoop, hs, hnone]

/-- One turn of the loop over the request line: it stops at a line it does not
accept, which stays in the buffer, and goes on to the headers after one it does. -/
theorem parseLoop_requestLine {t : Int} {fuel : Nat} {c : HttpContext} {b : Buffer} {ok : Bool}
    {line rest : List UInt8} (hs : c.state = .kExpectRequestLine) (hl : CrlfFree line)
    (hc : b.content = line ++ 13 :: 10 :: rest) :
    parseLoop t (fuel + 1) c b ok =
      if (processRequestLine c.request line).1 then
        parseLoop t fuel (c.expectHeaders (processRequestLine c.request line).2 t)
          (b.retrieveUntil (line.length + 2)) true
      else some (false, { c with request := (processRequestLine c.request line).2 }, b) := by
  obtain ⟨hcr, htake, -⟩ := findCRLF_line hl hc
  cases hp : processRequestLine c.request line with
  | mk succeed r =>
    cases succeed with
    | true => simp only [parseLoop, hs, hcr, htake, hp, ↓reduceIte]
    | false => simp only [parseLoop, hs, hcr, htake, hp, Bool.false_eq_true, ↓reduceIte]

/-! ## All lines -/

/-- The answer of `ParseRequest`, the context after it and the lines it leaves. -/
def readLines (t : Int) (c : HttpContext) (ok : Bool) :
    List (List UInt8) → Bool × HttpContext × List (List UInt8)
  | [] => (ok, c, [])
  | line :: ls =>
    match c.state with
    | .kExpectRequestLine =>
      if (processRequestLine c.request line).1 then
        readLines t (c.expectHeaders (processRequestLine c.request line).2 t) true ls
      else (false, { c with request := (processRequestLine c.request line).2 }, line :: ls)
    | .kExpectHeaders =>
      if 58 ∈ line then readLines t { c with request := addLine c.request line } ok ls
      else (ok, { c with state := .kGotAll }, ls)
    | .kExpectBody => (ok, c, line :: ls)
    | .kGotAll => (ok, c, line :: ls)

section Turns

variable {t : Int} {c : HttpContext} {ok : Bool} {line : List UInt8} {ls : List (List UInt8)}

theorem readLines_requestLine (hs : c.state = .kExpectRequestLine) :
    readLines t c ok (line :: ls) = if (processRequestLine c.request line).1 then
        readLines t (c.expectHeaders (processRequestLine c.request line).2 t) true ls
      else (false, { c with request := (processRequestLine c.request line).2 }, line :: ls) := by
  obtain ⟨state, r⟩ := c
  cases hs
  rfl

theorem readLines_header (hs : c.state = .kExpectHeaders) (hk : 58 ∈ line) :
    readLines t c ok (line :: ls) =
      readLines t { c with request := addLine c.request line } ok ls := by
  obtain ⟨state, r⟩ := c
  cases hs
  exact if_pos hk

theorem readLines_noColon (hs : c.state = .kExpectHeaders) (hk : 58 ∉ line) :
    readLines t c ok (line :: ls) = (ok, { c with state := .kGotAll }, ls) := by
  obtain ⟨state, r⟩ := c
  cases hs
  exact if_neg hk

end Turns

/-- The loop over a buffer that holds complete lines and the beginning of one. -/
theorem parseLoop_readLines {t : Int} {ls : List (List UInt8)} {rest : List UInt8}
    {c : HttpContext} {b : Buffer} {ok : Bool} (fuel : Nat)
    (hs : c.state = .kExpectRequestLine ∨ c.state = .kExpectHeaders) (hv : b.Valid)
    (hls : ∀ l ∈ ls, CrlfFree l) (hrest : CrlfFree rest)
    (hc : b.content = Lines.wire 13 10 ls ++ rest) :
    ∃ b', parseLoop t (ls.length + fuel + 1) c b ok =
        some ((readLines t c ok ls).1, (readLines t c ok ls).2.1, b') ∧
      b'.Valid ∧ b'.content = Lines.wire 13 10 (readLines t c ok ls).2.2 ++ rest := by
  induction ls generalizing c b ok with
  | nil => exact ⟨b, parseLoop_incomplete hs (by rw [CrlfFree, hc]; exact hrest), hv, hc⟩
  | cons line ls ih =>
    have hfree := hls line List.mem_cons_self
    have hline : b.content = line ++ 13 :: 10 :: (Lines.wire 13 10 ls ++ rest) := by
      rw [hc, Lines.wire_cons, List.append_assoc]
      rfl
    obtain ⟨hv', hc'⟩ := retrieveUntil_spec hv (line.length + 2)
    rw [(findCRLF_line hfree hline).2.2] at hc'
    have hls' : ∀ l ∈ ls, CrlfFree l := fun m hm => hls m (List.mem_cons_of_mem _ hm)
    rw [List.length_cons, Nat.add_right_comm ls.length 1 fuel]
    rcases hs with hs | hs
    · rw [parseLoop_requestLine hs hfree hline, readLines_requestLine hs]
      split
      · exact ih (Or.inr rfl) hv' hls' hc'
      · exact ⟨b, rfl, hv, hc⟩
    · by_cases hk : 58 ∈ line
      · rw [readLines_header hs hk, parseLoop_header hs hfree hk hline]
        exact ih (c := { c with request := addLine c.request line }) (Or.inr hs) hv' hls' hc'
      · rw [readLines_noColon hs hk]
        exact ⟨_, parseLoop_noColon hs hfree hk hline, hv', hc'⟩

theorem wire_length (ls : List (List UInt8)) :
    2 * ls.length ≤ (Lines.wire (13 : UInt8) 10 ls).length := by
  induction ls with
  | nil => simp
  | cons l ls ih =>
    rw [Lines.wire_cons]
    simp only [List.length_append, List.length_cons]
    omega

/-- The complete lines of the readable bytes. -/
def completed (b : Buffer) : List (List UInt8) := (Lines.split 13 10 b.content).1

/-- The beginning of a line after them. -/
def unfinished (b : Buffer) : List UInt8 := (Lines.split 13 10 b.content).2

theorem completed_spec (b : Buffer) :
    Lines.wire 13 10 (completed b) ++ unfinished b = b.content ∧
      (∀ l ∈ completed b, CrlfFree l) ∧ CrlfFree (unfinished b) :=
  Lines.split_spec (by decide) b.content

theorem completed_eq {b : Buffer} {ls : List (List UInt8)} {rest : List UInt8}
    (hls : ∀ l ∈ ls, CrlfFree l) (hrest : CrlfFree rest)
    (hc : b.content = Lines.wire 13 10 ls ++ rest) : completed b = ls ∧ unfinished b = rest := by
  unfold completed unfinished
  rw [hc, Lines.split_wire (by decide) hls, Lines.split_of_find_none hrest, List.append_nil]
  exact ⟨rfl, rfl⟩

/-- `ParseRequest` returns on every input buffer, and reads its complete lines. -/
theorem parseRequest_readLines (t : Int) {c : HttpContext} {b : Buffer}
    (hs : c.state = .kExpectRequestLine ∨ c.state = .kExpectHeaders) (hv : b.Valid) :
    ∃ b', c.parseRequest b t = some ((readLines t c false (completed b)).1,
        (readLines t c false (completed b)).2.1, b') ∧ b'.Valid ∧
      b'.content = Lines.wire 13 10 (readLines t c false (completed b)).2.2 ++ unfinished b := by
  obtain ⟨hwire, hls, hrest⟩ := completed_spec b
  have hfuel : b.readableBytes + 1 =
      (completed b).length + (b.readableBytes - (completed b).length) + 1 := by
    have h1 := wire_length (completed b)
    have h2 := congrArg List.length hwire
    rw [List.length_append, Buffer.content_length hv] at h2
    omega
  unfold parseRequest
  rw [hfuel]
  exact parseLoop_readLines _ hs hv hls hrest hwire.symm

/-- Header lines with a colon are read. -/
theorem readLines_headers (t : Int) {headers : List (List UInt8)} {c : HttpContext} (ok : Bool)
    (hs : c.state = .kExpectHeaders) (hk : ∀ h ∈ headers, 58 ∈ h) (ls : List (List UInt8)) :
    readLines t c ok (headers ++ ls) =
      readLines t { c with request := headers.foldl addLine c.request } ok ls := by
  induction headers generalizing c with
  | nil => rfl
  | cons h headers ih =>
    rw [List.cons_append, readLines_header hs (hk h List.mem_cons_self)]
    exact ih (c := { c with request := addLine c.request h }) hs
      fun m hm => hk m (List.mem_cons_of_mem _ hm)

/-- After an accepted request line and its header lines, a fresh context has the
request that they make up. -/
theorem readLines_request (t : Int) {line : List UInt8} {headers : List (List UInt8)}
    (ha : Accepted line) (hk : ∀ h ∈ headers, 58 ∈ h) (ls : List (List UInt8)) :
    ∃ r, SameRequest r (parseLines (line :: headers)) ∧
      readLines t .new false (line :: headers ++ ls) =
        readLines t ⟨.kExpectHeaders, r⟩ true ls := by
  have htrue : (processRequestLine HttpContext.new.request line).1 = true := ha
  have hfirst : SameRequest (HttpContext.new.expectHeaders (processRequestLine .new line).2
      t).request (processRequestLine .new line).2 := ⟨rfl, rfl, rfl, rfl, rfl⟩
  refine ⟨_, sameRequest_foldl hfirst headers, ?_⟩
  rw [List.cons_append, readLines_requestLine rfl, if_pos htrue, readLines_headers t true rfl hk]
  rfl

/-- A buffer that holds the given bytes. -/
def holding (bytes : List UInt8) : Buffer := ⟨List.replicate 8 0 ++ bytes, 8, 8 + bytes.length⟩

theorem holding_spec (bytes : List UInt8) (h : bytes.length < 100) :
    (holding bytes).Valid ∧ (holding bytes).content = bytes := by
  refine ⟨⟨?_, ?_, ?_, ?_⟩, ?_⟩
  · simp [holding]
  · simp [holding]
    omega
  · simp [holding, Buffer.kCheapPrepend]
  · simp [holding, vectorMaxSize]
    omega
  · simp [holding, Buffer.content]

end RyanNetwork.Http
