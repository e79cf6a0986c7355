import Mathlib.Data.List.Induction
import Mathlib.Data.List.TakeWhile
import RyanNetwork.Http.RequestLine

/-!
# Requests are parsed as they were printed

A request is printed as its request line, one line `name:value` for each header, and an
empty line. `ParseRequest` on a fresh context takes exactly that much off the buffer,
whatever follows it, and stores every part; of several headers of one name the last one
counts, without the white space around its value.
-/
namespace RyanNetwork.Http

open Lib HttpContext

set_option autoImplicit false

/-- A header as a client prints it, in ASCII. -/
structure HeaderField where
  name : List UInt8
  value : List UInt8
  nameOk : ∀ x ∈ name, x ≠ 58 ∧ x ≠ 13 ∧ x ≠ 10 ∧ x < 128
  valueOk : ∀ x ∈ value, x ≠ 13 ∧ x ≠ 10 ∧ x < 128

/-- `name ':' value`. -/
def HeaderField.line (h : HeaderField) : List UInt8 := h.name ++ 58 :: h.value

/-- A request before it is printed. -/
structure PrintedRequest where
  method : Method
  path : List UInt8
  query : List UInt8
  version : Version
  headers : List HeaderField
  methodOk : method ≠ .kInvalid
  pathOk : ∀ x ∈ path, x ≠ 32 ∧ x ≠ 63 ∧ x ≠ 13 ∧ x ≠ 10
  queryMark : query = [] ∨ ∃ q, query = 63 :: q
  queryOk : ∀ x ∈ query, x ≠ 32 ∧ x ≠ 13 ∧ x ≠ 10
  versionOk : version ≠ .kUnknown

namespace PrintedRequest

/-- The last digit of `HTTP/1.x`. -/
def digit (p : PrintedRequest) : UInt8 := if p.version = .kHttp11 then 49 else 48

theorem string_known {m : Method} (h : m ≠ .kInvalid) :
    m.string ∈ methodNames ∧ HttpRequest.methodOf m.string = m ∧ 13 ∉ m.string := by
  cases m with
  | kInvalid => exact absurd rfl h
  | _ => decide

theorem target_noSpace (p : PrintedRequest) : 32 ∉ p.path ++ p.query := by
  intro hm
  rcases List.mem_append.mp hm with hm | hm
  · exact (p.pathOk 32 hm).1 rfl
  · exact (p.queryOk 32 hm).1 rfl

theorem digit_ok (p : PrintedRequest) : p.digit = 48 ∨ p.digit = 49 := by
  unfold digit
  split
  · exact Or.inr rfl
  · exact Or.inl rfl

def requestLine (p : PrintedRequest) : RequestLine :=
  ⟨p.method.string, p.path ++ p.query, p.digit, (string_known p.methodOk).1, p.target_noSpace,
    p.digit_ok⟩

/-- `METHOD SP path query SP HTTP/1.x CRLF (name ':' value CRLF)* CRLF`. -/
def bytes (p : PrintedRequest) : List UInt8 :=
  Lines.wire 13 10 (p.requestLine.bytes :: p.headers.map HeaderField.line) ++ [13, 10]

end PrintedRequest

/-! ## The value of a header -/

/-- `w` is `v` without the white space at its two ends. -/
structure Trimmed (v w : List UInt8) : Prop where
  around : ∃ before after, v = before ++ w ++ after ∧
    (∀ x ∈ before, HttpRequest.isspace x = true) ∧ ∀ x ∈ after, HttpRequest.isspace x = true
  first : ∀ x, w.head? = some x → HttpRequest.isspace x = false
  last : ∀ x, w.getLast? = some x → HttpRequest.isspace x = false

/-- What is left of a list after a `dropWhile` does not start with what was dropped. -/
theorem head_dropWhile {v : List UInt8} {x : UInt8}
    (h : (v.dropWhile HttpRequest.isspace).head? = some x) : HttpRequest.isspace x = false := by
  have hnot := List.head?_dropWhile_not HttpRequest.isspace v
  rw [h] at hnot
  exact hnot

theorem headerValue_trimmed (v : List UInt8) : Trimmed v (HttpRequest.headerValue v) := by
  have hfront : v.takeWhile HttpRequest.isspace ++ v.dropWhile HttpRequest.isspace = v :=
    List.takeWhile_append_dropWhile
  have hback : v.dropWhile HttpRequest.isspace = HttpRequest.headerValue v ++
      ((v.dropWhile HttpRequest.isspace).reverse.takeWhile HttpRequest.isspace).reverse := by
    unfold HttpRequest.headerValue
    rw [← List.reverse_append, List.takeWhile_append_dropWhile, List.reverse_reverse]
  refine ⟨⟨v.takeWhile HttpRequest.isspace,
    ((v.dropWhile HttpRequest.isspace).reverse.takeWhile HttpRequest.isspace).reverse,
    ?_, ?_, ?_⟩, ?_, ?_⟩
  · rw [List.append_assoc, ← hback, hfront]
  · exact fun x hx => List.mem_takeWhile_imp hx
  · exact fun x hx => List.mem_takeWhile_imp (List.mem_reverse.mp hx)
  · intro x hx
    apply head_dropWhile (v := v)
    rw [hback, List.head?_append, hx]
    rfl
  · intro x hx
    unfold HttpRequest.headerValue at hx
    rw [List.getLast?_reverse] at hx
    exact head_dropWhile hx

/-- The last value that a list of headers gives to a name. -/
def lastValue (headers : List HeaderField) (name : List UInt8) : Option (List UInt8) :=
  ((headers.filter fun h => h.name = name).getLast?).map HeaderField.value

/-- What the map of headers is to hold under a name: the last value, trimmed. -/
def HoldsLast (headers : List HeaderField) (name : List UInt8) (found : Option (List UInt8)) :
    Prop :=
  match lastValue headers name with
  | none => found = none
  | some v => ∃ w, found = some w ∧ Trimmed v w

/-! ## Header lines -/

theorem addLine_field (r : HttpRequest) (h : HeaderField) :
    addLine r h.line = { r with
      headers := Function.update r.headers h.name (some (HttpRequest.headerValue h.value)) } := by
  have hname : 58 ∉ h.name := fun hm => (h.nameOk 58 hm).1 rfl
  have hfind : find ':' h.line = some h.name.length := find_first hname h.value
  have htake : h.line.take h.name.length = h.name := List.take_left
  have hdrop : h.line.drop (h.name.length + 1) = h.value := by
    unfold HeaderField.line
    rw [List.drop_append]
    simp
  unfold addLine HttpRequest.addHeader
  rw [hfind]
  dsimp only
  rw [htake, hdrop]

/-- Header lines change nothing but the map of headers. -/
theorem foldl_addLine_eq (r : HttpRequest) (ls : List (List UInt8)) :
    ls.foldl addLine r = { r with headers := (ls.foldl addLine r).headers } := by
  induction ls generalizing r with
  | nil => rfl
  | cons l ls ih =>
    rw [List.foldl_cons, ih]
    unfold addLine
    split
    · rfl
    · rfl

/-- The map after all header lines: each name has the last value given to it. -/
theorem foldl_addLine_headers (r : HttpRequest) (headers : List HeaderField) (name : List UInt8)
    (hr : r.headers name = none) :
    ((headers.map HeaderField.line).foldl addLine r).headers name =
      (lastValue headers name).map HttpRequest.headerValue := by
  induction headers using List.reverseRecOn with
  | nil => exact hr
  | append_singleton headers h ih =>
    rw [List.map_append, List.foldl_append]
    change (addLine ((headers.map HeaderField.line).foldl addLine r) h.line).headers name = _
    rw [addLine_field]
    unfold lastValue at ih ⊢
    rw [List.filter_append]
    by_cases hn : h.name = name
    · subst hn
      simp
    · simp only [List.filter_cons, List.filter_nil, hn, decide_false, Bool.false_eq_true,
        ↓reduceIte, List.append_nil]
      rw [Function.update_of_ne (Ne.symm hn)]
      exact ih

theorem holdsLast_foldl (r : HttpRequest) (headers : List HeaderField)
    (hr : r.headers = fun _ => none) (name : List UInt8) :
    HoldsLast headers name (((headers.map HeaderField.line).foldl addLine r).headers name) := by
  rw [foldl_addLine_headers r headers name (by rw [hr])]
  unfold HoldsLast
  cases lastValue headers name with
  | none => rfl
  | some v => exact ⟨_, rfl, headerValue_trimmed v⟩

/-! ## The whole request -/

/-- CR and LF. -/
theorem crlf_ne : (13 : UInt8) ≠ 10 := by decide

theorem crlfFree_of_absent {l : List UInt8} (h : 13 ∉ l) : CrlfFree l := by
  obtain hnone | ⟨m, rest, rfl, -⟩ : Lines.find 13 10 l = none ∨
      ∃ m rest, l = m ++ 13 :: 10 :: rest ∧ Lines.find 13 10 m = none := Lines.find_cases l
  · exact hnone
  · exact absurd (by simp) h

theorem setTarget_parts (r : HttpRequest) {path query : List UInt8} (hr : r.query = [])
    (hpath : 63 ∉ path) (hquery : query = [] ∨ ∃ q, query = 63 :: q) :
    setTarget r (path ++ query) = { r with path := path, query := query } := by
  unfold setTarget
  rcases hquery with rfl | ⟨q, rfl⟩
  · have hfind : find '?' path = none := find_absent hpath
    rw [List.append_nil, hfind, ← hr]
  · have hfind : find '?' (path ++ 63 :: q) = some path.length := find_first hpath q
    rw [hfind]
    dsimp only
    rw [List.take_left, List.drop_left]

namespace PrintedRequest

variable (p : PrintedRequest)

theorem lines_crlfFree :
    ∀ l ∈ p.requestLine.bytes :: p.headers.map HeaderField.line, CrlfFree l := by
  intro l hl
  apply crlfFree_of_absent
  intro hm
  rcases List.mem_cons.mp hl with rfl | hl
  · unfold RequestLine.bytes requestLine at hm
    simp only [List.mem_append, List.mem_cons, List.not_mem_nil, or_false] at hm
    rcases hm with hm | hm | (hm | hm) | hm | hm | hm
    · exact (string_known p.methodOk).2.2 hm
    · exact absurd hm (by decide)
    · exact (p.pathOk 13 hm).2.2.1 rfl
    · exact (p.queryOk 13 hm).2.1 rfl
    · exact absurd hm (by decide)
    · exact absurd hm (by decide)
    · rcases p.digit_ok with h | h
      · rw [h] at hm
        exact absurd hm (by decide)
      · rw [h] at hm
        exact absurd hm (by decide)
  · obtain ⟨h, -, rfl⟩ := List.mem_map.mp hl
    rcases List.mem_append.mp hm with hm | hm
    · exact (h.nameOk 13 hm).2.1 rfl
    · rcases List.mem_cons.mp hm with hm | hm
      · exact absurd hm (by decide)
      · exact (h.valueOk 13 hm).1 rfl

theorem headers_colon : ∀ l ∈ p.headers.map HeaderField.line, 58 ∈ l := by
  intro l hl
  obtain ⟨h, -, rfl⟩ := List.mem_map.mp hl
  simp [HeaderField.line]

/-- The request that the printed lines make up. -/
theorem parseLines_eq :
    ∃ headers, parseLines (p.requestLine.bytes :: p.headers.map HeaderField.line) =
        { HttpRequest.new with
          method := p.method, path := p.path, query := p.query, version := p.version,
          headers := headers } ∧
      ∀ name, HoldsLast p.headers name (headers name) := by
  have hpath : 63 ∉ p.path := fun hm => (p.pathOk 63 hm).2.1 rfl
  have hversion : (if p.digit = 49 then Version.kHttp11 else .kHttp10) = p.version := by
    have hok := p.versionOk
    unfold digit
    cases hv : p.version with
    | kUnknown => exact absurd hv hok
    | kHttp10 => rfl
    | kHttp11 => rfl
  have hline : processRequestLine .new p.requestLine.bytes =
      (true, { HttpRequest.new with
        method := p.method, path := p.path, query := p.query, version := p.version }) := by
    rw [processRequestLine_bytes]
    change (true, { setTarget { HttpRequest.new with
      method := HttpRequest.methodOf p.method.string } (p.path ++ p.query) with
      version := if p.digit = 49 then Version.kHttp11 else .kHttp10 }) = _
    rw [setTarget_parts { HttpRequest.new with
      method := HttpRequest.methodOf p.method.string } rfl hpath p.queryMark, hversion,
      (string_known p.methodOk).2.1]
  change ∃ headers, (p.headers.map HeaderField.line).foldl addLine
    (processRequestLine .new p.requestLine.bytes).2 = _ ∧ _
  rw [hline, foldl_addLine_eq]
  exact ⟨_, rfl, holdsLast_foldl _ p.headers rfl⟩

end PrintedRequest

/-- Every printed request in a fresh context, with any bytes behind it: `ParseRequest`
returns true with the request complete, the method, path, query and version are the
printed ones, every header name has the last of its values, trimmed, and exactly the bytes
behind the request are left in the buffer. -/
theorem printed_request_parsed (p : PrintedRequest) (rest : List UInt8) (t : Int) {b : Buffer}
    (hv : b.Valid) (hc : b.content = p.bytes ++ rest) :
    ∃ c b', HttpContext.new.parseRequest b t = some (true, c, b') ∧ c.gotAll = true ∧
      c.request.method = p.method ∧ c.request.path = p.path ∧ c.request.query = p.query ∧
      c.request.version = p.version ∧
      (∀ name, HoldsLast p.headers name (c.request.headers name)) ∧ b'.content = rest := by
  obtain ⟨hwire, hsplit, hopen⟩ := Lines.split_spec crlf_ne rest
  obtain ⟨headers, hrequest, hlast⟩ := p.parseLines_eq
  have hlines : completed b = p.requestLine.bytes :: p.headers.map HeaderField.line ++
      [] :: (Lines.split 13 10 rest).1 ∧ unfinished b = (Lines.split 13 10 rest).2 := by
    refine completed_eq ?_ hopen ?_
    · intro l hl
      rcases List.mem_append.mp hl with hl | hl
      · exact p.lines_crlfFree l hl
      · rcases List.mem_cons.mp hl with rfl | hl
        · rfl
        · exact hsplit l hl
    · have hempty : Lines.wire 13 10 ([] :: (Lines.split 13 10 rest).1) =
          [13, 10] ++ Lines.wire 13 10 (Lines.split 13 10 rest).1 := Lines.wire_cons [] _
      rw [hc, Lines.wire_append, hempty, PrintedRequest.bytes, List.append_assoc,
        List.append_assoc, List.append_assoc, hwire]
  obtain ⟨r, hsame, hread⟩ := readLines_request t (accepted_bytes p.requestLine) p.headers_colon
    ([] :: (Lines.split 13 10 rest).1)
  rw [readLines_noColon rfl (by decide)] at hread
  obtain ⟨b', hparse, -, hleft⟩ := parseRequest_readLines t (c := .new) (Or.inl rfl) hv
  rw [hlines.1, hread] at hparse hleft
  rw [hlines.2] at hleft
  rw [hrequest] at hsame
  refine ⟨_, b', hparse, rfl, hsame.method, hsame.path, hsame.query, hsame.version, ?_,
    hleft.trans hwire⟩
  intro name
  change HoldsLast p.headers name (r.headers name)
  rw [hsame.headers]
  exact hlast name

/-- `GET /a?b` with two values for one name and an empty one, before bytes that look like
another request. -/
def printedSample : PrintedRequest where
  method := .kGet
  path := ascii "/a"
  query := ascii "?b"
  version := .kHttp11
  headers := [⟨ascii "A", ascii " 1", by decide +kernel, by decide +kernel⟩,
    ⟨[], ascii " \t ", by decide +kernel, by decide +kernel⟩,
    ⟨ascii "A", ascii " 2 ", by decide +kernel, by decide +kernel⟩]
  methodOk := by decide
  pathOk := by decide +kernel
  queryMark := Or.inr ⟨ascii "b", rfl⟩
  queryOk := by decide +kernel
  versionOk := by decide

theorem printedSample_parsed :
    ∃ c b', HttpContext.new.parseRequest
        (holding (printedSample.bytes ++ ascii "GET / HTTP/1.0\r\n\r\n")) 7 = some (true, c, b') ∧
      c.gotAll = true ∧ c.request.method = .kGet ∧ c.request.path = ascii "/a" ∧
      c.request.query = ascii "?b" ∧ c.request.version = .kHttp11 ∧
      (∀ name, HoldsLast printedSample.headers name (c.request.headers name)) ∧
      b'.content = ascii "GET / HTTP/1.0\r\n\r\n" := by
  obtain ⟨hv, hc⟩ := holding_spec (printedSample.bytes ++ ascii "GET / HTTP/1.0\r\n\r\n")
    (by decide)
  exact printed_request_parsed printedSample _ 7 hv hc

end RyanNetwork.Http
