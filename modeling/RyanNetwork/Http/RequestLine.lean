import RyanNetwork.Http.Parsing

/-!
# The grammar of the request line

`ProcessRequestLine` cuts the line at its first two spaces. It succeeds on the lines
`M SP T SP HTTP/1.D` and on no others, and what it stores gives the line back.
-/
namespace RyanNetwork.Http

open Lib HttpContext

set_option autoImplicit false

/-- The switch of `MethodString()`. -/
def Method.string : Method → List UInt8
  | .kGet => ascii "GET"
  | .kPost => ascii "POST"
  | .kHead => ascii "HEAD"
  | .kPut => ascii "PUT"
  | .kDelete => ascii "DELETE"
  | .kInvalid => ascii "UNKNOWN"

/-- `MethodString()`. -/
def HttpRequest.methodString (r : HttpRequest) : List UInt8 := r.method.string

/-- The methods that `SetMethod` knows. -/
def methodNames : List (List UInt8) :=
  [ascii "GET", ascii "POST", ascii "HEAD", ascii "PUT", ascii "DELETE"]

/-! ## The parts of the line -/

theorem methodOf_known {m : List UInt8} (h : HttpRequest.methodOf m ≠ .kInvalid) :
    m ∈ methodNames := by
  by_contra hm
  simp only [methodNames, List.mem_cons, List.not_mem_nil, or_false, not_or] at hm
  obtain ⟨hget, hpost, hhead, hput, hdelete⟩ := hm
  apply h
  unfold HttpRequest.methodOf
  rw [if_neg hget, if_neg hpost, if_neg hhead, if_neg hput, if_neg hdelete]

/-- The known methods have no space in them and are told apart. -/
theorem methodNames_spec : ∀ m ∈ methodNames, 32 ∉ m ∧ HttpRequest.methodOf m ≠ .kInvalid ∧
    (HttpRequest.methodOf m).string = m := by
  decide

/-- A request line of the grammar: a method, a target without a space, and the digit of
the version. -/
structure RequestLine where
  method : List UInt8
  target : List UInt8
  digit : UInt8
  known : method ∈ methodNames
  noSpace : 32 ∉ target
  isDigit : digit = 48 ∨ digit = 49

/-- `M SP T SP HTTP/1.D`. -/
def RequestLine.bytes (l : RequestLine) : List UInt8 :=
  l.method ++ 32 :: (l.target ++ 32 :: (ascii "HTTP/1." ++ [l.digit]))

/-- The line that a request stands for. -/
def HttpRequest.requestLine (r : HttpRequest) : List UInt8 :=
  r.methodString ++ 32 :: (r.path ++ r.query ++ 32 :: (ascii "HTTP/1." ++
    [if r.version = .kHttp11 then 49 else 48]))

/-- The request has taken over every part of the line. -/
structure Represents (r : HttpRequest) (l : RequestLine) : Prop where
  method : r.methodString = l.method
  target : r.path ++ r.query = l.target
  path : 63 ∉ r.path
  query : r.query = [] ∨ ∃ q, r.query = 63 :: q
  version : r.version = if l.digit = 49 then .kHttp11 else .kHttp10
  rebuilt : r.requestLine = l.bytes

theorem processVersion_digit (r : HttpRequest) {digit : UInt8} (h : digit = 48 ∨ digit = 49) :
    processVersion r (ascii "HTTP/1." ++ [digit]) =
      (true, { r with version := if digit = 49 then .kHttp11 else .kHttp10 }) := by
  rcases h with rfl | rfl
  · rfl
  · rfl

theorem digit_of_processVersion {r : HttpRequest} {version : List UInt8}
    (h : (processVersion r version).1 = true) :
    ∃ digit : UInt8, (digit = 48 ∨ digit = 49) ∧ version = ascii "HTTP/1." ++ [digit] := by
  unfold processVersion at h
  split at h
  · rename_i hv
    exact ⟨49, Or.inr rfl, hv⟩
  · split at h
    · rename_i hv
      exact ⟨48, Or.inl rfl, hv⟩
    · cases h

/-- Path and query are the target, cut at its first question mark. -/
theorem setTarget_spec (r : HttpRequest) (hq : r.query = []) (target : List UInt8) :
    (setTarget r target).path ++ (setTarget r target).query = target ∧
      63 ∉ (setTarget r target).path ∧
      ((setTarget r target).query = [] ∨ ∃ q, (setTarget r target).query = 63 :: q) ∧
      (setTarget r target).method = r.method := by
  unfold setTarget
  split
  · rename_i question hf
    obtain ⟨hcut, hfirst⟩ := find_some hf
    refine ⟨List.take_append_drop _ _, hfirst, Or.inr ⟨target.drop (question + 1), ?_⟩, rfl⟩
    have hlen : (target.take question).length = question := by
      have hlt := (List.findIdx?_eq_some_iff_getElem.mp hf).1
      rw [List.length_take]
      omega
    change target.drop question = _
    conv_lhs => rw [hcut]
    exact List.drop_left' hlen
  · rename_i hf
    refine ⟨?_, absent_of_find hf, Or.inl hq, rfl⟩
    change target ++ r.query = target
    rw [hq, List.append_nil]

/-! ## The whole line -/

/-- What `ProcessRequestLine` does on a line of the grammar. -/
theorem processRequestLine_bytes (r : HttpRequest) (l : RequestLine) :
    processRequestLine r l.bytes =
      (true, { setTarget { r with method := HttpRequest.methodOf l.method } l.target with
        version := if l.digit = 49 then .kHttp11 else .kHttp10 }) := by
  obtain ⟨hspace, hvalid, -⟩ := methodNames_spec l.method l.known
  have hfirst : find ' ' l.bytes = some l.method.length := find_first hspace _
  have hdrop : l.bytes.drop (l.method.length + 1) =
      l.target ++ 32 :: (ascii "HTTP/1." ++ [l.digit]) := by
    unfold RequestLine.bytes
    rw [List.drop_append]
    simp
  have htake : l.bytes.take l.method.length = l.method := List.take_left
  have hsecond : find ' ' (l.target ++ 32 :: (ascii "HTTP/1." ++ [l.digit])) =
      some l.target.length := find_first l.noSpace _
  have hrest : (l.target ++ 32 :: (ascii "HTTP/1." ++ [l.digit])).drop (l.target.length + 1) =
      ascii "HTTP/1." ++ [l.digit] := by
    rw [List.drop_append]
    simp
  unfold processRequestLine
  simp only [hfirst, hdrop, htake, hsecond, hrest, hvalid, ↓reduceIte, List.take_left]
  rw [processVersion_digit _ l.isDigit]

/-- A line on which `ProcessRequestLine` succeeds is one of the grammar. -/
theorem bytes_of_accepted {line : List UInt8} (h : Accepted line) :
    ∃ l : RequestLine, line = l.bytes := by
  unfold Accepted processRequestLine at h
  split at h
  · cases h
  · rename_i space hf
    dsimp only at h
    split at h
    · cases h
    · rename_i hvalid
      split at h
      · cases h
      · rename_i space' hf'
        obtain ⟨digit, hdigit, hversion⟩ := digit_of_processVersion h
        obtain ⟨hcut, -⟩ := find_some hf
        obtain ⟨hcut', hfirst⟩ := find_some hf'
        refine ⟨⟨line.take space, _, digit, methodOf_known hvalid, hfirst, hdigit⟩, ?_⟩
        unfold RequestLine.bytes
        dsimp only
        rw [← hversion]
        exact hcut.trans (congrArg (fun rest => line.take space ++ 32 :: rest) hcut')

theorem accepted_bytes (l : RequestLine) : Accepted l.bytes := by
  unfold Accepted
  rw [processRequestLine_bytes]

theorem represents_bytes (l : RequestLine) :
    Represents (processRequestLine .new l.bytes).2 l := by
  obtain ⟨-, -, hname⟩ := methodNames_spec l.method l.known
  obtain ⟨htarget, hpath, hquery, hmethod⟩ :=
    setTarget_spec { HttpRequest.new with method := HttpRequest.methodOf l.method } rfl l.target
  have hstring : (processRequestLine .new l.bytes).2.methodString = l.method := by
    rw [processRequestLine_bytes]
    refine Eq.trans (congrArg Method.string hmethod) hname
  have hversion : (processRequestLine .new l.bytes).2.version =
      if l.digit = 49 then .kHttp11 else .kHttp10 := by
    rw [processRequestLine_bytes]
  have hparts : (processRequestLine .new l.bytes).2.path ++
      (processRequestLine .new l.bytes).2.query = l.target := by
    rw [processRequestLine_bytes]
    exact htarget
  refine ⟨hstring, hparts, ?_, ?_, hversion, ?_⟩
  · rw [processRequestLine_bytes]
    exact hpath
  · rw [processRequestLine_bytes]
    exact hquery
  · have hdigit : (if (processRequestLine .new l.bytes).2.version = .kHttp11 then 49 else 48) =
        l.digit := by
      rw [hversion]
      rcases l.isDigit with h | h
      · rw [h]
        rfl
      · rw [h]
        rfl
    rw [HttpRequest.requestLine, hstring, hparts, hdigit]
    rfl

/-- On a fresh request `ProcessRequestLine` succeeds on a line if and only if it is one of
the grammar, and then the request has taken over its method, target and version, from
which the line can be rebuilt. -/
theorem requestLine_accepted_iff (line : List UInt8) :
    ((processRequestLine .new line).1 = true ↔ ∃ l : RequestLine, line = l.bytes) ∧
      ∀ l : RequestLine, Represents (processRequestLine .new l.bytes).2 l := by
  refine ⟨⟨bytes_of_accepted, ?_⟩, represents_bytes⟩
  rintro ⟨l, rfl⟩
  exact accepted_bytes l

/-- The target may be empty or hold several question marks; a third space is no part of
the grammar. -/
example :
    (processRequestLine .new (ascii "GET /a?b?c HTTP/1.0")).1 = true ∧
      (processRequestLine .new (ascii "GET  HTTP/1.1")).1 = true ∧
      (processRequestLine .new (ascii "GET / HTTP/1.1 ")).1 = false ∧
      (processRequestLine .new (ascii "GET  / HTTP/1.1")).1 = false := by
  decide +kernel

end RyanNetwork.Http
