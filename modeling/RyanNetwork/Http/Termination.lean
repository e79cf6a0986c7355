import RyanNetwork.Lib.Runs
import RyanNetwork.Http.Parsing

/-!
# When the loop of `ParseRequest` exits

A turn of the loop in `kExpectRequestLine` or `kExpectHeaders` takes a line off the
buffer or clears `hasMore`. In `kGotAll` no branch is taken and nothing changes: a call
between the one that completed a request and `Reset` never returns. `kExpectBody` is
never entered.
-/
namespace RyanNetwork.Http

open Lib HttpContext

set_option autoImplicit false

/-- The two requests after `swap(rhs)`: this one, then `rhs`. -/
def HttpRequest.swap (r rhs : HttpRequest) : HttpRequest × HttpRequest :=
  (⟨rhs.method, rhs.version, rhs.path, rhs.query, rhs.receiveTime, rhs.headers⟩,
    ⟨r.method, r.version, r.path, r.query, r.receiveTime, r.headers⟩)

/-- `Reset()`. -/
def HttpContext.reset (c : HttpContext) : HttpContext :=
  { c with state := .kExpectRequestLine, request := (c.request.swap .new).1 }

namespace Termination

/-- The loop of a call on `buf` ends after finitely many turns. -/
def Exits (c : HttpContext) (buf : Buffer) (receiveTime : Int) : Prop :=
  ∃ fuel result, parseLoop receiveTime fuel c buf false = some result

inductive Action where
  | parseRequest (buf : Buffer) (receiveTime : Int)
  | reset

/-- One call on the context. A call that does not return is not a step. -/
def Step (c : HttpContext) : Action → HttpContext → Prop
  | .parseRequest buf receiveTime, d =>
    buf.Valid ∧ ∃ fuel ok buf', parseLoop receiveTime fuel c buf false = some (ok, d, buf')
  | .reset, d => d = c.reset

/-- Whatever the fuel, it does not suffice in `kGotAll`. -/
theorem parseLoop_gotAll (t : Int) {c : HttpContext} (hs : c.state = .kGotAll) (b : Buffer)
    (ok : Bool) (fuel : Nat) : parseLoop t fuel c b ok = none := by
  induction fuel with
  | zero => rfl
  | succ fuel ih => simp only [parseLoop, hs, ih]

/-- The loop never enters `kExpectBody`. -/
theorem parseLoop_state {t : Int} {fuel : Nat} {c d : HttpContext} {b b' : Buffer}
    {ok ok' : Bool} (hs : c.state ≠ .kExpectBody)
    (h : parseLoop t fuel c b ok = some (ok', d, b')) : d.state ≠ .kExpectBody := by
  induction fuel generalizing c b ok with
  | zero => cases h
  | succ fuel ih =>
    cases hc : c.state with
    | kExpectBody => exact absurd hc hs
    | kGotAll =>
      rw [parseLoop_gotAll t hc] at h
      cases h
    | kExpectRequestLine =>
      simp only [parseLoop, hc] at h
      split at h
      · cases h
        exact hs
      · split at h
        · exact ih (c := c.expectHeaders _ t) (by simp [expectHeaders]) h
        · cases h
          simp
    | kExpectHeaders =>
      simp only [parseLoop, hc] at h
      split at h
      · cases h
        exact hs
      · split at h
        · exact ih (c := c.addHeader _ _) hs h
        · cases h
          simp

/-- A context that holds no complete request waits for a line. -/
theorem awaits_line {c : HttpContext} (hbody : c.state ≠ .kExpectBody) (hg : c.gotAll = false) :
    c.state = .kExpectRequestLine ∨ c.state = .kExpectHeaders := by
  cases hc : c.state with
  | kExpectRequestLine => exact Or.inl rfl
  | kExpectHeaders => exact Or.inr rfl
  | kExpectBody => exact absurd hc hbody
  | kGotAll =>
    unfold gotAll at hg
    rw [hc] at hg
    cases hg

theorem step_state {c d : HttpContext} {a : Action} (hs : c.state ≠ .kExpectBody)
    (h : Step c a d) : d.state ≠ .kExpectBody := by
  cases a with
  | reset =>
    cases h
    simp [HttpContext.reset]
  | parseRequest buf receiveTime =>
    obtain ⟨-, fuel, ok, buf', h⟩ := h
    exact parseLoop_state hs h

/-- In every context that calls of `ParseRequest` and `Reset` lead to, and for every
buffer: the loop of a further call exits if and only if the context does not hold a
complete request already. -/
theorem parseRequest_exits_iff {c : HttpContext} {acts : List Action}
    (hr : Run Step .new acts c) {b : Buffer} (hv : b.Valid) (t : Int) :
    Exits c b t ↔ c.gotAll = false := by
  have hbody : c.state ≠ .kExpectBody :=
    hr.invariant (P := fun c => c.state ≠ .kExpectBody) (fun _ _ _ hs h => step_state hs h)
      (by simp [HttpContext.new])
  constructor
  · rintro ⟨fuel, result, h⟩
    by_contra hg
    have hgot : c.state = .kGotAll := by simpa [gotAll] using hg
    rw [parseLoop_gotAll t hgot] at h
    cases h
  · intro hg
    obtain ⟨b', h, -⟩ := parseRequest_readLines t (awaits_line hbody hg) hv
    exact ⟨_, _, h⟩

/-- A call on the beginning of a request returns, and so does the next one. -/
theorem incomplete_request_exits :
    ∃ c, Run Step .new [.parseRequest (holding (ascii "GET / HTTP/1.1\r\nHo")) 0] c ∧
      Exits c (holding (ascii "Host: a\r\n\r\n")) 1 := by
  have hres : ((parseLoop 0 19 .new (holding (ascii "GET / HTTP/1.1\r\nHo")) false).map
      fun r => r.2.1.gotAll) = some false := by decide +kernel
  obtain ⟨⟨ok, c, b'⟩, hp, hg⟩ := Option.map_eq_some_iff.mp hres
  have hrun : Run Step .new [.parseRequest (holding (ascii "GET / HTTP/1.1\r\nHo")) 0] c :=
    .single ⟨(holding_spec _ (by decide)).1, _, ok, b', hp⟩
  exact ⟨c, hrun, (parseRequest_exits_iff hrun (holding_spec _ (by decide)).1 1).mpr hg⟩

/-- A complete request is parsed; the bytes of the next one arrive before `Reset`, and the
loop of the next call goes round for ever. -/
theorem call_before_reset_spins :
    ∃ c, Run Step .new [.parseRequest (holding (ascii "GET / HTTP/1.1\r\n\r\n")) 0] c ∧
      c.gotAll = true ∧
      (∀ fuel, parseLoop 1 fuel c (holding (ascii "GET / HTTP/1.1\r\n\r\n")) false = none) ∧
      ¬Exits c (holding (ascii "GET / HTTP/1.1\r\n\r\n")) 1 := by
  have hres : ((parseLoop 0 19 .new (holding (ascii "GET / HTTP/1.1\r\n\r\n")) false).map
      fun r => r.2.1.gotAll) = some true := by decide +kernel
  obtain ⟨⟨ok, c, b'⟩, hp, hg⟩ := Option.map_eq_some_iff.mp hres
  have hspins := parseLoop_gotAll 1 (c := c) (by simpa [gotAll] using hg)
    (holding (ascii "GET / HTTP/1.1\r\n\r\n")) false
  refine ⟨c, .single ⟨(holding_spec _ (by decide)).1, _, ok, b', hp⟩, hg, hspins, ?_⟩
  rintro ⟨fuel, result, h⟩
  rw [hspins fuel] at h
  cases h

end Termination

end RyanNetwork.Http
