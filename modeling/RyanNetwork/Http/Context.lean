import RyanNetwork.Lib.Lines
import RyanNetwork.Buffer.Content

/-!
# `HttpRequest` and `HttpContext`

The request-line and header parser over a connection's input buffer. Pointer
ranges of the source are byte lists here: `[Peek(), crlf)` is the part of the
readable bytes before the first CRLF. The parse loop has an explicit fuel, since
its source spins for ever in `kExpectBody` and `kGotAll`.
-/
namespace RyanNetwork.Http

open Lib

set_option autoImplicit false

/-- The bytes of a string literal. -/
def ascii (s : String) : List UInt8 := s.toList.map fun c => c.toNat.toUInt8

inductive Method where
  | kInvalid
  | kGet
  | kPost
  | kHead
  | kPut
  | kDelete
  deriving DecidableEq, Repr

inductive Version where
  | kUnknown
  | kHttp10
  | kHttp11
  deriving DecidableEq, Repr

/-- `headers` is the `std::map` from fields to values. -/
structure HttpRequest where
  method : Method
  version : Version
  path : List UInt8
  query : List UInt8
  receiveTime : Int
  headers : List UInt8 → Option (List UInt8)

namespace HttpRequest

/-- `HttpRequest()`. -/
def new : HttpRequest := ⟨.kInvalid, .kUnknown, [], [], 0, fun _ => none⟩

/-- The method that `SetMethod` stores. -/
def methodOf (m : List UInt8) : Method :=
  if m = ascii "GET" then .kGet
  else if m = ascii "POST" then .kPost
  else if m = ascii "HEAD" then .kHead
  else if m = ascii "PUT" then .kPut
  else if m = ascii "DELETE" then .kDelete
  else .kInvalid

/-- `::isspace` in the "C" locale. -/
def isspace (c : UInt8) : Bool := c = 32 || (9 ≤ c && c ≤ 13)

/-- The value of a header: the bytes after the colon without space around them. -/
def headerValue (bytes : List UInt8) : List UInt8 :=
  ((bytes.dropWhile isspace).reverse.dropWhile isspace).reverse

/-- `AddHeader(start, colon, end)` on the line `[start, end)`. -/
def addHeader (r : HttpRequest) (line : List UInt8) (colon : Nat) : HttpRequest :=
  { r with
    headers := Function.update r.headers (line.take colon)
      (some (headerValue (line.drop (colon + 1)))) }

end HttpRequest

inductive HttpRequestParseState where
  | kExpectRequestLine
  | kExpectHeaders
  | kExpectBody
  | kGotAll
  deriving DecidableEq, Repr

structure HttpContext where
  state : HttpRequestParseState
  request : HttpRequest

namespace HttpContext

/-- `HttpContext()`. -/
def new : HttpContext := ⟨.kExpectRequestLine, .new⟩

def gotAll (c : HttpContext) : Bool := c.state = .kGotAll

/-- `std::find` for one character, as an offset. -/
def find (c : Char) (s : List UInt8) : Option Nat := s.findIdx? (· = c.toNat.toUInt8)

/-- The part of `ProcessRequestLine` after the second space. -/
def processVersion (r : HttpRequest) (version : List UInt8) : Bool × HttpRequest :=
  if version = ascii "HTTP/1.1" then (true, { r with version := .kHttp11 })
  else if version = ascii "HTTP/1.0" then (true, { r with version := .kHttp10 })
  else (false, r)

/-- The part of `ProcessRequestLine` that stores the path and the query, which
keeps its question mark. -/
def setTarget (r : HttpRequest) (target : List UInt8) : HttpRequest :=
  match find '?' target with
  | some question => { r with path := target.take question, query := target.drop question }
  | none => { r with path := target }

/-- `ProcessRequestLine(begin, end)`: whether it succeeded, and the request. -/
def processRequestLine (r : HttpRequest) (line : List UInt8) : Bool × HttpRequest :=
  match find ' ' line with
  | none => (false, r)
  | some space =>
    let r := { r with method := HttpRequest.methodOf (line.take space) }
    if r.method = .kInvalid then (false, r)
    else
      let start := line.drop (space + 1)
      match find ' ' start with
      | none => (false, r)
      | some space => processVersion (setTarget r (start.take space)) (start.drop (space + 1))

/-- `FindCRLF()`, as an offset from `Peek()`. -/
def findCRLF (buf : Buffer) : Option Nat := Lines.find 13 10 buf.content

/-- The request line as `ParseRequest` has processed it: the context then expects
headers. -/
def expectHeaders (c : HttpContext) (r : HttpRequest) (receiveTime : Int) : HttpContext :=
  { c with state := .kExpectHeaders, request := { r with receiveTime := receiveTime } }

def addHeader (c : HttpContext) (line : List UInt8) (colon : Nat) : HttpContext :=
  { c with request := c.request.addHeader line colon }

/-- The loop of `ParseRequest`; `none` when the fuel does not suffice. -/
def parseLoop (receiveTime : Int) : Nat → HttpContext → Buffer → Bool →
    Option (Bool × HttpContext × Buffer)
  | 0, _, _, _ => none
  | fuel + 1, c, buf, ok =>
    match c.state with
    | .kExpectRequestLine =>
      match findCRLF buf with
      | none => some (ok, c, buf)
      | some crlf =>
        match processRequestLine c.request (buf.content.take crlf) with
        | (true, r) =>
          parseLoop receiveTime fuel (c.expectHeaders r receiveTime)
            (buf.retrieveUntil (crlf + 2)) true
        | (false, r) => some (false, { c with request := r }, buf)
    | .kExpectHeaders =>
      match findCRLF buf with
      | none => some (ok, c, buf)
      | some crlf =>
        match find ':' (buf.content.take crlf) with
        | some colon =>
          parseLoop receiveTime fuel (c.addHeader (buf.content.take crlf) colon)
            (buf.retrieveUntil (crlf + 2)) ok
        | none => some (ok, { c with state := .kGotAll }, buf.retrieveUntil (crlf + 2))
    | .kExpectBody => parseLoop receiveTime fuel c buf ok
    | .kGotAll => parseLoop receiveTime fuel c buf ok

/-- `ParseRequest(buf, receiveTime)`. Every turn of the loop that goes on takes at
least two bytes, so the number of readable bytes bounds the turns. -/
def parseRequest (c : HttpContext) (buf : Buffer) (receiveTime : Int) :
    Option (Bool × HttpContext × Buffer) :=
  parseLoop receiveTime (buf.readableBytes + 1) c buf false

end HttpContext

end RyanNetwork.Http
