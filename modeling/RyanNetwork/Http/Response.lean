import RyanNetwork.Http.Incremental

/-!
# `HttpResponse`

A response and its `AppendToBuffer`. The headers are an `std::unordered_map`: its
entries have distinct keys, and the order in which they are visited is a parameter.
-/
namespace RyanNetwork.Http

open Lib

set_option autoImplicit false

/-- `HttpStatusCode`. Its largest enumerator takes nine bits, so the enumeration has the
values below 512. -/
abbrev HttpStatusCode : Type := Fin 512

namespace HttpStatusCode

def kUnknown : HttpStatusCode := 0

def k200Ok : HttpStatusCode := 200

end HttpStatusCode

/-- `headers` has the entries of the map. -/
structure HttpResponse where
  headers : List (List UInt8 × List UInt8)
  statusCode : HttpStatusCode
  statusMessage : List UInt8
  closeConnection : Bool
  body : List UInt8
  distinct : (headers.map Prod.fst).Nodup

namespace HttpResponse

/-- `HttpResponse(bool close)`. -/
def new (close : Bool) : HttpResponse := ⟨[], .kUnknown, [], close, [], List.nodup_nil⟩

def setStatusCode (r : HttpResponse) (code : HttpStatusCode) : HttpResponse :=
  { r with statusCode := code }

def setStatusMessage (r : HttpResponse) (message : List UInt8) : HttpResponse :=
  { r with statusMessage := message }

def setCloseConnection (r : HttpResponse) (on : Bool) : HttpResponse :=
  { r with closeConnection := on }

/-- `headers_[key] = value`. -/
def addHeader (r : HttpResponse) (key value : List UInt8) : HttpResponse :=
  { r with
    headers := (key, value) :: r.headers.filter fun h => h.1 ≠ key
    distinct := by
      rw [List.map_cons, List.nodup_cons]
      constructor
      · intro hm
        obtain ⟨h, hh, rfl⟩ := List.mem_map.mp hm
        simpa using (List.mem_filter.mp hh).2
      · exact r.distinct.sublist (List.filter_sublist.map Prod.fst) }

def setContentType (r : HttpResponse) (contentType : List UInt8) : HttpResponse :=
  r.addHeader (ascii "Content-Type") contentType

def setBody (r : HttpResponse) (body : List UInt8) : HttpResponse := { r with body := body }

/-- `%d` and `%zd` of a number that is not negative. -/
def decimal (n : Nat) : List UInt8 := ascii n.repr

/-- What `snprintf(buf, sizeof(buf), …)` leaves in `char buf[32]`, up to its NUL, of a text
without one. -/
def snprintf (text : List UInt8) : List UInt8 := text.take 31

def crlf : List UInt8 := ascii "\r\n"

/-- The loop of `AppendToBuffer` over the headers. -/
def appendHeaders (output : Buffer) : List (List UInt8 × List UInt8) → Except Fault Buffer
  | [] => .ok output
  | header :: rest => do
    let output ← output.append header.1
    let output ← output.append (ascii ": ")
    let output ← output.append header.2
    let output ← output.append crlf
    appendHeaders output rest

/-- `AppendToBuffer(output)`, with the headers visited in the given order. -/
def appendToBuffer (r : HttpResponse) (order : List (List UInt8 × List UInt8))
    (output : Buffer) : Except Fault Buffer := do
  let output ← output.append (snprintf (ascii "HTTP/1.1 " ++ decimal r.statusCode.val ++ ascii " "))
  let output ← output.append r.statusMessage
  let output ← output.append crlf
  let output ←
    if r.closeConnection then output.append (ascii "Connection: close\r\n")
    else do
      let output ← output.append
        (snprintf (ascii "Content-Length: " ++ decimal r.body.length ++ crlf))
      output.append (ascii "Connection: Keep-Alive\r\n")
  let output ← appendHeaders output order
  let output ← output.append crlf
  output.append r.body

/-- The strings that `AppendToBuffer` appends, one after the other. -/
def pieces (r : HttpResponse) (order : List (List UInt8 × List UInt8)) : List (List UInt8) :=
  [snprintf (ascii "HTTP/1.1 " ++ decimal r.statusCode.val ++ ascii " "), r.statusMessage, crlf] ++
    (if r.closeConnection then [ascii "Connection: close\r\n"]
    else [snprintf (ascii "Content-Length: " ++ decimal r.body.length ++ crlf),
      ascii "Connection: Keep-Alive\r\n"]) ++
    order.flatMap (fun h => [h.1, ascii ": ", h.2, crlf]) ++ [crlf, r.body]

theorem appendAll_append (b : Buffer) (ps qs : List (List UInt8)) :
    appendAll b (ps ++ qs) = (appendAll b ps >>= fun c => appendAll c qs) := by
  induction ps generalizing b with
  | nil => rfl
  | cons p ps ih =>
    rw [List.cons_append, appendAll, appendAll]
    cases b.append p with
    | error e => rfl
    | ok c => exact ih c

theorem appendHeaders_eq (b : Buffer) (order : List (List UInt8 × List UInt8)) :
    appendHeaders b order = appendAll b (order.flatMap fun h => [h.1, ascii ": ", h.2, crlf]) := by
  induction order generalizing b with
  | nil => rfl
  | cons h order ih =>
    rw [List.flatMap_cons, appendHeaders]
    simp only [ih]
    rfl

/-- `AppendToBuffer` appends its pieces. -/
theorem appendToBuffer_eq (r : HttpResponse) (order : List (List UInt8 × List UInt8))
    (b : Buffer) : r.appendToBuffer order b = appendAll b (r.pieces order) := by
  have hlast (x : Except Fault Buffer) : (x >>= fun c => .ok c) = x := by
    cases x with
    | error e => rfl
    | ok c => rfl
  unfold appendToBuffer pieces
  cases r.closeConnection with
  | true =>
    simp only [appendHeaders_eq, ↓reduceIte, List.cons_append, List.nil_append, appendAll,
      appendAll_append, hlast]
  | false =>
    simp only [appendHeaders_eq, Bool.false_eq_true, ↓reduceIte, List.cons_append,
      List.nil_append, appendAll, appendAll_append, hlast]

end HttpResponse

end RyanNetwork.Http
