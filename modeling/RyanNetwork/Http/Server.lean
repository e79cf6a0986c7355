import RyanNetwork.Http.Context

/-!
# `HttpServer::OnMessage`

What the server does with one connection: every message callback parses what the
input buffer holds with a context of its own, answers a failed parse with the 400
response and a half-close, and hands a complete request to the user's callback.
-/
namespace RyanNetwork.Http

set_option autoImplicit false

inductive HttpEffect where
  | badRequest
  | httpCallback (req : HttpRequest)
  | response (bytes : List UInt8)

/-- One connection: its input buffer, whether its state is `kConnected`, and what
was done on it so far. -/
structure Session where
  buffer : Buffer
  connected : Bool
  effects : List HttpEffect

namespace Session

/-- `conn->Send(…)`, recorded as `e`: nothing is sent unless connected. -/
def send (s : Session) (e : HttpEffect) : Session :=
  if s.connected then { s with effects := s.effects ++ [e] } else s

/-- `conn->Shutdown()`. -/
def shutdown (s : Session) : Session := { s with connected := false }

/-- `OnRequest`. `respond` stands for the user's callback and `AppendToBuffer`: the
bytes of the response, and whether it closes the connection. -/
def onRequest (respond : HttpRequest → List UInt8 × Bool) (s : Session) (req : HttpRequest) :
    Session :=
  let s := { s with effects := s.effects ++ [HttpEffect.httpCallback req] }
  let s := s.send (.response (respond req).1)
  if (respond req).2 then s.shutdown else s

/-- The branch of `OnMessage` for a failed parse. -/
def afterParse (s : Session) (ok : Bool) : Session :=
  if ok then s else (s.send .badRequest).shutdown

/-- `OnMessage` on a connection whose input buffer now is `buf`. -/
def onMessage (respond : HttpRequest → List UInt8 × Bool) (s : Session) (buf : Buffer)
    (receiveTime : Int) : Option Session := do
  let (ok, context, buf) ← HttpContext.new.parseRequest buf receiveTime
  let s := { s with buffer := buf }.afterParse ok
  return if context.gotAll then s.onRequest respond context.request else s

end Session

end RyanNetwork.Http
