import RyanNetwork.Http.Parsing

/-!
# Parsing a request as it arrives

The bytes of a connection arrive in chunks. After each chunk `ParseRequest` is called on
the connection's one context, until the request is complete. Reading the lines of a
longer stream is reading those of a beginning of it and then going on from there, so
every way of cutting the bytes leaves the context and the buffer of a single call.
-/
namespace RyanNetwork.Http

open Lib HttpContext

set_option autoImplicit false

/-- A chunk is appended, and `ParseRequest` called unless the request is complete. The
inner `none` is a call that does not return. -/
def receive (c : HttpContext) (b : Buffer) (chunk : List UInt8) (t : Int) :
    Except Fault (Option (HttpContext × Buffer)) := do
  let b ← b.append chunk
  return if c.gotAll then some (c, b) else (c.parseRequest b t).map fun r => r.2

/-- All chunks, each with the time of its arrival. -/
def receiveAll (c : HttpContext) (b : Buffer) :
    List (List UInt8 × Int) → Except Fault (Option (HttpContext × Buffer))
  | [] => .ok (some (c, b))
  | (chunk, t) :: rest => do
    match ← receive c b chunk t with
    | some (c, b) => receiveAll c b rest
    | none => return none

/-- The chunks are appended, and nothing is parsed. -/
def appendAll (b : Buffer) : List (List UInt8) → Except Fault Buffer
  | [] => .ok b
  | chunk :: rest => do
    let b ← b.append chunk
    appendAll b rest

theorem appendAll_ok {b b' : Buffer} {chunks : List (List UInt8)} (hv : b.Valid)
    (h : appendAll b chunks = .ok b') : b'.Valid ∧ b'.content = b.content ++ chunks.flatten := by
  induction chunks generalizing b with
  | nil =>
    cases h
    exact ⟨hv, by simp⟩
  | cons chunk rest ih =>
    obtain ⟨d, hd, h⟩ := bind_ok h
    obtain ⟨hdv, hdc⟩ := Buffer.append_ok hv hd
    obtain ⟨hv', hc'⟩ := ih hdv h
    refine ⟨hv', ?_⟩
    rw [hc', hdc, List.flatten_cons, List.append_assoc]

/-! ## A request line that is processed again -/

section Lines

variable {line : List UInt8} {space space' : Nat}

theorem processRequestLine_noSpace (r : HttpRequest) (h : find ' ' line = none) :
    processRequestLine r line = (false, r) := by
  simp only [processRequestLine, h]

theorem processRequestLine_invalid (r : HttpRequest) (h : find ' ' line = some space)
    (hm : HttpRequest.methodOf (line.take space) = .kInvalid) :
    processRequestLine r line = (false, { r with method := .kInvalid }) := by
  simp only [processRequestLine, h, hm, ↓reduceIte]

theorem processRequestLine_oneSpace (r : HttpRequest) (h : find ' ' line = some space)
    (hm : HttpRequest.methodOf (line.take space) ≠ .kInvalid)
    (h' : find ' ' (line.drop (space + 1)) = none) :
    processRequestLine r line =
      (false, { r with method := HttpRequest.methodOf (line.take space) }) := by
  simp only [processRequestLine, h, hm, h', ↓reduceIte]

theorem processRequestLine_twoSpaces (r : HttpRequest) (h : find ' ' line = some space)
    (hm : HttpRequest.methodOf (line.take space) ≠ .kInvalid)
    (h' : find ' ' (line.drop (space + 1)) = some space') :
    processRequestLine r line =
      processVersion (setTarget { r with method := HttpRequest.methodOf (line.take space) }
        ((line.drop (space + 1)).take space')) ((line.drop (space + 1)).drop (space' + 1)) := by
  simp only [processRequestLine, h, hm, h', ↓reduceIte]

end Lines

theorem processVersion_again (r : HttpRequest) (m : Method) (target version : List UInt8) :
    processVersion (setTarget { (processVersion (setTarget { r with method := m } target)
        version).2 with method := m } target) version =
      processVersion (setTarget { r with method := m } target) version := by
  unfold processVersion setTarget
  cases find '?' target with
  | none =>
    split
    · rfl
    · split
      · rfl
      · rfl
  | some question =>
    split
    · rfl
    · split
      · rfl
      · rfl

/-- A line that was processed once leaves the same request when it is processed again. -/
theorem processRequestLine_again (r : HttpRequest) (line : List UInt8) :
    processRequestLine (processRequestLine r line).2 line = processRequestLine r line := by
  cases h : find ' ' line with
  | none => rw [processRequestLine_noSpace r h, processRequestLine_noSpace r h]
  | some space =>
    by_cases hm : HttpRequest.methodOf (line.take space) = .kInvalid
    · rw [processRequestLine_invalid r h hm, processRequestLine_invalid _ h hm]
    · cases h' : find ' ' (line.drop (space + 1)) with
      | none => rw [processRequestLine_oneSpace r h hm h', processRequestLine_oneSpace _ h hm h']
      | some space' =>
        rw [processRequestLine_twoSpaces r h hm h', processRequestLine_twoSpaces _ h hm h']
        exact processVersion_again r _ _ _

theorem sameRequest_processVersion {a b : HttpRequest} (h : SameRequest a b) (m : Method)
    (target version : List UInt8) :
    (processVersion (setTarget { a with method := m } target) version).1 =
        (processVersion (setTarget { b with method := m } target) version).1 ∧
      SameRequest (processVersion (setTarget { a with method := m } target) version).2
        (processVersion (setTarget { b with method := m } target) version).2 := by
  have htarget : SameRequest (setTarget { a with method := m } target)
      (setTarget { b with method := m } target) := by
    unfold setTarget
    split
    · exact ⟨rfl, rfl, rfl, h.version, h.headers⟩
    · exact ⟨rfl, rfl, h.query, h.version, h.headers⟩
  unfold processVersion
  split
  · exact ⟨rfl, htarget.method, htarget.path, htarget.query, rfl, htarget.headers⟩
  · split
    · exact ⟨rfl, htarget.method, htarget.path, htarget.query, rfl, htarget.headers⟩
    · exact ⟨rfl, htarget⟩

/-- What the line does to a request does not depend on the time in it. -/
theorem sameRequest_processRequestLine {a b : HttpRequest} (hr : SameRequest a b)
    (line : List UInt8) :
    (processRequestLine a line).1 = (processRequestLine b line).1 ∧
      SameRequest (processRequestLine a line).2 (processRequestLine b line).2 := by
  cases h : find ' ' line with
  | none =>
    rw [processRequestLine_noSpace a h, processRequestLine_noSpace b h]
    exact ⟨rfl, hr⟩
  | some space =>
    by_cases hm : HttpRequest.methodOf (line.take space) = .kInvalid
    · rw [processRequestLine_invalid a h hm, processRequestLine_invalid b h hm]
      exact ⟨rfl, rfl, hr.path, hr.query, hr.version, hr.headers⟩
    · cases h' : find ' ' (line.drop (space + 1)) with
      | none =>
        rw [processRequestLine_oneSpace a h hm h', processRequestLine_oneSpace b h hm h']
        exact ⟨rfl, rfl, hr.path, hr.query, hr.version, hr.headers⟩
      | some space' =>
        rw [processRequestLine_twoSpaces a h hm h', processRequestLine_twoSpaces b h hm h']
        exact sameRequest_processVersion hr _ _ _

/-! ## Going on with a reading -/

/-- Readings that differ in their answer and in the time of arrival only. -/
structure SameReading (x y : Bool × HttpContext × List (List UInt8)) : Prop where
  state : x.2.1.state = y.2.1.state
  request : SameRequest x.2.1.request y.2.1.request
  unread : x.2.2 = y.2.2

theorem SameRequest.refl (r : HttpRequest) : SameRequest r r := ⟨rfl, rfl, rfl, rfl, rfl⟩

theorem SameReading.refl (x : Bool × HttpContext × List (List UInt8)) : SameReading x x :=
  ⟨rfl, SameRequest.refl _, rfl⟩

theorem SameReading.symm {x y : Bool × HttpContext × List (List UInt8)} (h : SameReading x y) :
    SameReading y x := ⟨h.state.symm, h.request.symm, h.unread.symm⟩

theorem SameReading.trans {x y z : Bool × HttpContext × List (List UInt8)}
    (h : SameReading x y) (h' : SameReading y z) : SameReading x z :=
  ⟨h.state.trans h'.state, h.request.trans h'.request, h.unread.trans h'.unread⟩

/-- Nothing is read where neither a request line nor a header is expected. -/
theorem readLines_stopped {t : Int} {c : HttpContext} {ok : Bool} {ls : List (List UInt8)}
    (hs : c.state = .kExpectBody ∨ c.state = .kGotAll) : readLines t c ok ls = (ok, c, ls) := by
  obtain ⟨state, r⟩ := c
  cases ls with
  | nil => rfl
  | cons l ls =>
    rcases hs with hs | hs
    · cases hs
      rfl
    · cases hs
      rfl

/-- A reading does not depend on the times of arrival. -/
theorem readLines_same (t t' : Int) {c d : HttpContext} (ok ok' : Bool)
    (hs : c.state = d.state) (hr : SameRequest c.request d.request) (ls : List (List UInt8)) :
    SameReading (readLines t c ok ls) (readLines t' d ok' ls) := by
  induction ls generalizing c d ok ok' with
  | nil => exact ⟨hs, hr, rfl⟩
  | cons line ls ih =>
    cases hc : c.state with
    | kExpectRequestLine =>
      obtain ⟨hsucceed, hreq⟩ := sameRequest_processRequestLine hr line
      rw [readLines_requestLine hc, readLines_requestLine (hs ▸ hc), hsucceed]
      split
      · exact ih true true rfl ⟨hreq.method, hreq.path, hreq.query, hreq.version, hreq.headers⟩
      · exact ⟨hs, hreq, rfl⟩
    | kExpectHeaders =>
      by_cases hk : 58 ∈ line
      · rw [readLines_header hc hk, readLines_header (hs ▸ hc) hk]
        exact ih ok ok' hs (sameRequest_addLine hr line)
      · rw [readLines_noColon hc hk, readLines_noColon (hs ▸ hc) hk]
        exact ⟨rfl, hr, rfl⟩
    | kExpectBody =>
      rw [readLines_stopped (Or.inl hc), readLines_stopped (Or.inl (hs ▸ hc))]
      exact ⟨hs, hr, rfl⟩
    | kGotAll =>
      rw [readLines_stopped (Or.inr hc), readLines_stopped (Or.inr (hs ▸ hc))]
      exact ⟨hs, hr, rfl⟩

/-- Reading more lines is going on from where the reading of the first ones ended. -/
theorem readLines_resume (t : Int) (c : HttpContext) (ok ok' : Bool)
    (ls ms : List (List UInt8)) :
    SameReading (readLines t c ok (ls ++ ms))
      (readLines t (readLines t c ok ls).2.1 ok' ((readLines t c ok ls).2.2 ++ ms)) := by
  induction ls generalizing c ok with
  | nil => exact readLines_same t t ok ok' rfl (SameRequest.refl _) ms
  | cons line ls ih =>
    rw [List.cons_append]
    cases hc : c.state with
    | kExpectRequestLine =>
      rw [readLines_requestLine hc, readLines_requestLine hc]
      split
      · exact ih _ true
      · rename_i hno
        have hagain := processRequestLine_again c.request line
        have hstop : readLines t { c with request := (processRequestLine c.request line).2 } ok'
            (line :: (ls ++ ms)) = (false, { c with request := (processRequestLine c.request
              line).2 }, line :: (ls ++ ms)) := by
          have hstate : HttpContext.state { c with request := (processRequestLine c.request
              line).2 } = .kExpectRequestLine := hc
          rw [readLines_requestLine hstate, hagain, if_neg hno]
        rw [List.cons_append, hstop]
        exact SameReading.refl _
    | kExpectHeaders =>
      by_cases hk : 58 ∈ line
      · rw [readLines_header hc hk, readLines_header hc hk]
        exact ih _ ok
      · rw [readLines_noColon hc hk, readLines_noColon hc hk, readLines_stopped (Or.inr rfl)]
        exact ⟨rfl, SameRequest.refl _, rfl⟩
    | kExpectBody =>
      rw [readLines_stopped (Or.inl hc), readLines_stopped (Or.inl hc),
        readLines_stopped (Or.inl hc)]
      exact ⟨rfl, SameRequest.refl _, rfl⟩
    | kGotAll =>
      rw [readLines_stopped (Or.inr hc), readLines_stopped (Or.inr hc),
        readLines_stopped (Or.inr hc)]
      exact ⟨rfl, SameRequest.refl _, rfl⟩

/-- The lines that are left are the last ones. -/
theorem readLines_unread (t : Int) (c : HttpContext) (ok : Bool) (ls : List (List UInt8)) :
    (readLines t c ok ls).2.2 <:+ ls := by
  induction ls generalizing c ok with
  | nil => exact List.suffix_refl _
  | cons line ls ih =>
    cases hc : c.state with
    | kExpectRequestLine =>
      rw [readLines_requestLine hc]
      split
      · exact (ih _ true).trans (List.suffix_cons line ls)
      · exact List.suffix_refl _
    | kExpectHeaders =>
      by_cases hk : 58 ∈ line
      · rw [readLines_header hc hk]
        exact (ih _ ok).trans (List.suffix_cons line ls)
      · rw [readLines_noColon hc hk]
        exact List.suffix_cons line ls
    | kExpectBody => exact ⟨[], congrArg (·.2.2) (readLines_stopped (Or.inl hc))⟩
    | kGotAll => exact ⟨[], congrArg (·.2.2) (readLines_stopped (Or.inr hc))⟩

/-- No request of this parser has a body. -/
theorem readLines_noBody (t : Int) {c : HttpContext} (ok : Bool) (hs : c.state ≠ .kExpectBody)
    (ls : List (List UInt8)) : (readLines t c ok ls).2.1.state ≠ .kExpectBody := by
  induction ls generalizing c ok with
  | nil => exact hs
  | cons line ls ih =>
    cases hc : c.state with
    | kExpectRequestLine =>
      rw [readLines_requestLine hc]
      split
      · exact ih true (by simp [expectHeaders])
      · exact hs
    | kExpectHeaders =>
      by_cases hk : 58 ∈ line
      · rw [readLines_header hc hk]
        exact ih (c := { c with request := addLine c.request line }) ok hs
      · rw [readLines_noColon hc hk]
        simp
    | kExpectBody => exact absurd hc hs
    | kGotAll =>
      rw [readLines_stopped (Or.inr hc)]
      exact hs

/-! ## Chunks -/

/-- What a fresh context reads of the bytes. -/
def reading (bytes : List UInt8) : Bool × HttpContext × List (List UInt8) :=
  readLines 0 .new false (Lines.split 13 10 bytes).1

/-- The context and the buffer are those of one call over all the bytes. -/
structure Parsed (bytes : List UInt8) (c : HttpContext) (b : Buffer) : Prop where
  valid : b.Valid
  state : c.state = (reading bytes).2.1.state
  request : SameRequest c.request (reading bytes).2.1.request
  content : b.content = Lines.wire 13 10 (reading bytes).2.2 ++ (Lines.split 13 10 bytes).2

/-- A chunk adds the lines that it completes. -/
theorem reading_append (bytes chunk : List UInt8) :
    SameReading (reading (bytes ++ chunk)) (readLines 0 (reading bytes).2.1 false
      ((reading bytes).2.2 ++ (Lines.split 13 10 ((Lines.split 13 10 bytes).2 ++ chunk)).1)) := by
  have hsplit := Lines.split_append (show (13 : UInt8) ≠ 10 by decide) bytes chunk
  unfold reading
  rw [hsplit]
  exact readLines_resume 0 .new false false _ _

theorem reading_crlfFree (bytes : List UInt8) : ∀ l ∈ (reading bytes).2.2, CrlfFree l := by
  intro l hl
  have hlines := (Lines.split_spec (show (13 : UInt8) ≠ 10 by decide) bytes).2.1
  exact hlines l ((readLines_unread 0 .new false _).subset hl)

/-- The lines of the buffer once the chunk was appended. -/
theorem parsed_split {bytes chunk : List UInt8} {c : HttpContext} {b b' : Buffer}
    (hp : Parsed bytes c b) (hc : b'.content = b.content ++ chunk) :
    Lines.split 13 10 b'.content =
      ((reading bytes).2.2 ++ (Lines.split 13 10 ((Lines.split 13 10 bytes).2 ++ chunk)).1,
        (Lines.split 13 10 (bytes ++ chunk)).2) := by
  have hsplit := Lines.split_append (show (13 : UInt8) ≠ 10 by decide) bytes chunk
  rw [hc, hp.content, List.append_assoc, Lines.split_wire (by decide) (reading_crlfFree bytes),
    hsplit]

/-- Every call returns, and keeps the context and the buffer those of a single call. -/
theorem receive_parsed {bytes chunk : List UInt8} {t : Int} {c : HttpContext} {b : Buffer}
    {r : Option (HttpContext × Buffer)} (hp : Parsed bytes c b)
    (h : receive c b chunk t = .ok r) :
    ∃ c' b', r = some (c', b') ∧ Parsed (bytes ++ chunk) c' b' := by
  obtain ⟨d, hd, h⟩ := bind_ok h
  obtain ⟨hdv, hdc⟩ := Buffer.append_ok hp.valid hd
  have hlines := parsed_split hp hdc
  have hadd := reading_append bytes chunk
  cases h
  cases hg : c.gotAll with
  | true =>
    have hgot : (reading bytes).2.1.state = .kGotAll := by
      rw [← hp.state]
      exact of_decide_eq_true hg
    rw [readLines_stopped (Or.inr hgot)] at hadd
    refine ⟨c, d, rfl, hdv, ?_, ?_, ?_⟩
    · rw [hadd.state, hp.state]
    · exact hp.request.trans hadd.request.symm
    · rw [hadd.unread]
      have hspec := (Lines.split_spec (show (13 : UInt8) ≠ 10 by decide) d.content).1
      rw [hlines] at hspec
      exact hspec.symm
  | false =>
    have hstate : c.state = .kExpectRequestLine ∨ c.state = .kExpectHeaders := by
      have hbody : c.state ≠ .kExpectBody := by
        rw [hp.state]
        exact readLines_noBody 0 false (by simp [HttpContext.new]) _
      have hnot : c.state ≠ .kGotAll := of_decide_eq_false hg
      cases hc : c.state with
      | kExpectRequestLine => exact Or.inl rfl
      | kExpectHeaders => exact Or.inr rfl
      | kExpectBody => exact absurd hc hbody
      | kGotAll => exact absurd hc hnot
    obtain ⟨b', hparse, hv, hc⟩ := parseRequest_readLines t hstate hdv
    have hsame := readLines_same t 0 false false hp.state hp.request (completed d)
    have hcompleted : completed d = (reading bytes).2.2 ++
        (Lines.split 13 10 ((Lines.split 13 10 bytes).2 ++ chunk)).1 := congrArg Prod.fst hlines
    rw [← hcompleted] at hadd
    have hall := hsame.trans hadd.symm
    refine ⟨_, b', ?_, hv, hall.state, hall.request, ?_⟩
    · rw [hparse]
      rfl
    · have hrest : unfinished d = (Lines.split 13 10 (bytes ++ chunk)).2 := by
        unfold unfinished
        rw [hlines]
      rw [hc, hall.unread, hrest]

/-- So do all chunks together. -/
theorem receiveAll_parsed {chunks : List (List UInt8 × Int)} {bytes : List UInt8}
    {c : HttpContext} {b : Buffer} {r : Option (HttpContext × Buffer)} (hp : Parsed bytes c b)
    (h : receiveAll c b chunks = .ok r) :
    ∃ c' b', r = some (c', b') ∧ Parsed (bytes ++ (chunks.map Prod.fst).flatten) c' b' := by
  induction chunks generalizing bytes c b with
  | nil =>
    cases h
    exact ⟨c, b, rfl, by simpa using hp⟩
  | cons x chunks ih =>
    obtain ⟨chunk, t⟩ := x
    obtain ⟨o, ho, h⟩ := bind_ok h
    obtain ⟨d, e, rfl, hp'⟩ := receive_parsed hp ho
    obtain ⟨c', b', hr, hp''⟩ := ih hp' h
    refine ⟨c', b', hr, ?_⟩
    rw [List.map_cons, List.flatten_cons, ← List.append_assoc]
    exact hp''

theorem parsed_new {b : Buffer} (hv : b.Valid) (hc : b.content = []) : Parsed [] .new b :=
  ⟨hv, rfl, SameRequest.refl _, hc⟩

/-- For all bytes, however they are cut into chunks: every call of `ParseRequest` returns,
and when the appends have returned, the context and the unread bytes are those of a
single call after all bytes were appended. -/
theorem incremental_eq_single_call {b₀ b₁ : Buffer} {chunks : List (List UInt8 × Int)}
    {cuts : List (List UInt8)} {r : Option (HttpContext × Buffer)} (t : Int)
    (hv : b₀.Valid) (hnil : b₀.content = []) (hr : receiveAll .new b₀ chunks = .ok r)
    (hcuts : cuts.flatten = (chunks.map Prod.fst).flatten) (hall : appendAll b₀ cuts = .ok b₁) :
    ∃ c b ok c' b', r = some (c, b) ∧ HttpContext.new.parseRequest b₁ t = some (ok, c', b') ∧
      c.state = c'.state ∧ SameRequest c.request c'.request ∧ b.content = b'.content := by
  obtain ⟨c, b, rfl, hp⟩ := receiveAll_parsed (parsed_new hv hnil) hr
  obtain ⟨hv₁, hc₁⟩ := appendAll_ok hv hall
  rw [hnil, List.nil_append, hcuts] at hc₁
  rw [List.nil_append, ← hc₁] at hp
  obtain ⟨b', hparse, -, hc⟩ := parseRequest_readLines t (c := .new) (Or.inl rfl) hv₁
  have hsame := readLines_same 0 t false false (c := .new) rfl (SameRequest.refl _) (completed b₁)
  refine ⟨c, b, _, _, b', rfl, hparse, hp.state.trans hsame.state,
    hp.request.trans hsame.request, ?_⟩
  rw [hc, hp.content, ← hsame.unread]
  rfl

/-- A request line is rejected, arrives again with more bytes, and is cut inside its CRLF. -/
theorem rejected_line_in_chunks :
    ∃ c b ok c' b', receiveAll .new (holding []) [(ascii "GET /x HTTP/2\r", 1),
          (ascii "\nHost: a", 2), (ascii "\r\n\r\n", 3)] = .ok (some (c, b)) ∧
      (∃ b₁, appendAll (holding []) [ascii "GET /x HTTP/2\r\nHost: a\r\n\r\n"] = .ok b₁ ∧
        HttpContext.new.parseRequest b₁ 4 = some (ok, c', b')) ∧
      c.state = c'.state ∧ SameRequest c.request c'.request ∧ b.content = b'.content := by
  obtain ⟨hv, hnil⟩ := holding_spec [] (by decide)
  have hfed : (receiveAll .new (holding []) [(ascii "GET /x HTTP/2\r", 1),
      (ascii "\nHost: a", 2), (ascii "\r\n\r\n", 3)]).toBool = true := by decide +kernel
  have hone : (appendAll (holding [])
      [ascii "GET /x HTTP/2\r\nHost: a\r\n\r\n"]).toBool = true := by decide +kernel
  cases hr : receiveAll .new (holding []) [(ascii "GET /x HTTP/2\r", 1),
      (ascii "\nHost: a", 2), (ascii "\r\n\r\n", 3)] with
  | error e =>
    rw [hr] at hfed
    cases hfed
  | ok r =>
    cases hall : appendAll (holding []) [ascii "GET /x HTTP/2\r\nHost: a\r\n\r\n"] with
    | error e =>
      rw [hall] at hone
      cases hone
    | ok b₁ =>
      obtain ⟨c, b, ok, c', b', rfl, hp, hrest⟩ :=
        incremental_eq_single_call 4 hv hnil hr (by decide) hall
      exact ⟨c, b, ok, c', b', rfl, ⟨b₁, rfl, hp⟩, hrest⟩

end RyanNetwork.Http
