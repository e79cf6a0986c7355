import RyanNetwork.Lib.Runs
import RyanNetwork.Http.Parsing
import RyanNetwork.Http.Server

/-!
# Requests that arrive in several segments

`OnMessage` starts a new context on every call, and `ParseRequest` answers an
incomplete request line with a failure. A request cut into segments is served as
if it had come whole only if every call finds, at the line where the previous one
stopped, a complete line that is itself a request line, and the last of them
leads to the same request.
-/
namespace RyanNetwork.Http

open Lib HttpContext

set_option autoImplicit false

/-! ## One call of `OnMessage` -/

/-- The requests handed to the user's callback. -/
def callbacks (effects : List HttpEffect) : List HttpRequest :=
  effects.filterMap fun
    | .httpCallback req => some req
    | _ => none

/-- A connected session on which nothing was done yet. -/
structure Fresh (s : Session) : Prop where
  connected : s.connected = true
  effects : s.effects = []

variable {respond : HttpRequest → List UInt8 × Bool}

theorem onMessage_of_parse {s : Session} {b b' : Buffer} {t : Int} {ok : Bool} {c : HttpContext}
    (h : HttpContext.new.parseRequest b t = some (ok, c, b')) :
    s.onMessage respond b t = some (
      if c.gotAll then ({ s with buffer := b' }.afterParse ok).onRequest respond c.request
      else { s with buffer := b' }.afterParse ok) := by
  unfold Session.onMessage
  rw [h]
  rfl

theorem afterParse_bad {s : Session} (hs : Fresh s) :
    HttpEffect.badRequest ∈ (s.afterParse false).effects ∧
      (s.afterParse false).buffer = s.buffer := by
  simp [Session.afterParse, Session.send, Session.shutdown, hs.connected]

variable (respond) in
/-- An incomplete first line is answered with the 400 response. -/
theorem onMessage_incomplete {s : Session} {b : Buffer} (t : Int) (hs : Fresh s)
    (hf : CrlfFree b.content) :
    ∃ s', s.onMessage respond b t = some s' ∧ HttpEffect.badRequest ∈ s'.effects ∧
      s'.buffer = b := by
  have hp : HttpContext.new.parseRequest b t = some (false, .new, b) :=
    parseLoop_incomplete (Or.inl rfl) hf
  refine ⟨_, onMessage_of_parse hp, ?_⟩
  exact afterParse_bad (s := { s with buffer := b }) ⟨hs.connected, hs.effects⟩

variable (respond) in
/-- So is a first line that is no request line. -/
theorem onMessage_rejected {s : Session} {b : Buffer} (t : Int) {line rest : List UInt8}
    (hs : Fresh s) (hl : CrlfFree line) (hc : b.content = line ++ 13 :: 10 :: rest)
    (ha : ¬Accepted line) :
    ∃ s', s.onMessage respond b t = some s' ∧ HttpEffect.badRequest ∈ s'.effects := by
  have hp : HttpContext.new.parseRequest b t =
      some (false, ⟨.kExpectRequestLine, (processRequestLine .new line).2⟩, b) := by
    unfold parseRequest
    rw [parseLoop_requestLine rfl hl hc]
    exact if_neg ha
  refine ⟨_, onMessage_of_parse hp, ?_⟩
  exact (afterParse_bad (s := { s with buffer := b }) ⟨hs.connected, hs.effects⟩).1

variable (respond) in
/-- Complete lines without the empty one are consumed, and nothing else happens. -/
theorem onMessage_partial (s : Session) {b : Buffer} (t : Int) {line : List UInt8}
    {headers : List (List UInt8)} {rest : List UInt8} (hv : b.Valid) (ha : Accepted line)
    (hf : CrlfFree line) (hl : ∀ h ∈ headers, CrlfFree h ∧ 58 ∈ h)
    (hc : b.content = Lines.wire 13 10 (line :: headers) ++ rest) (hrest : CrlfFree rest) :
    ∃ b', b'.Valid ∧ b'.content = rest ∧
      s.onMessage respond b t = some { s with buffer := b' } := by
  have hls : ∀ l ∈ line :: headers, CrlfFree l := by
    intro l hm
    rcases List.mem_cons.mp hm with rfl | hm
    · exact hf
    · exact (hl l hm).1
  obtain ⟨hlines, hleft⟩ := completed_eq hls hrest hc
  obtain ⟨b', hp, hbv, hbc⟩ := parseRequest_readLines t (c := .new) (Or.inl rfl) hv
  obtain ⟨r, -, hr⟩ := readLines_request t ha (fun h hm => (hl h hm).2) []
  rw [List.append_nil] at hr
  rw [hlines, hr] at hp hbc
  rw [hleft] at hbc
  refine ⟨b', hbv, hbc, ?_⟩
  rw [onMessage_of_parse hp]
  rfl

variable (respond) in
/-- All lines and the empty one: the user's callback is called with the request. -/
theorem onMessage_complete {s : Session} {b : Buffer} (t : Int) {line : List UInt8}
    {headers : List (List UInt8)} (hs : Fresh s) (hv : b.Valid) (ha : Accepted line)
    (hf : CrlfFree line) (hl : ∀ h ∈ headers, CrlfFree h ∧ 58 ∈ h)
    (hc : b.content = Lines.wire 13 10 (line :: headers) ++ [13, 10]) :
    ∃ s' req, s.onMessage respond b t = some s' ∧ callbacks s'.effects = [req] ∧
      HttpEffect.badRequest ∉ s'.effects ∧ SameRequest req (parseLines (line :: headers)) := by
  have hls : ∀ l ∈ line :: headers ++ [[]], CrlfFree l := by
    intro l hm
    rcases List.mem_append.mp hm with hm | hm
    · rcases List.mem_cons.mp hm with rfl | hm
      · exact hf
      · exact (hl l hm).1
    · rw [List.mem_singleton.mp hm]
      rfl
  have hwire : b.content = Lines.wire 13 10 (line :: headers ++ [[]]) ++ [] := by
    rw [hc, Lines.wire_append, List.append_nil]
    rfl
  obtain ⟨hlines, -⟩ := completed_eq hls (show CrlfFree [] from rfl) hwire
  obtain ⟨b', hp, -⟩ := parseRequest_readLines t (c := .new) (Or.inl rfl) hv
  obtain ⟨r, hsame, hr⟩ := readLines_request t ha (fun h hm => (hl h hm).2) [[]]
  rw [hlines, hr, readLines_noColon rfl (by simp)] at hp
  refine ⟨_, r, onMessage_of_parse hp, ?_, ?_, hsame⟩
  · cases hr : (respond r).2 <;>
      simp [HttpContext.gotAll, Session.afterParse, Session.onRequest, Session.send,
        Session.shutdown, hs.connected, hs.effects, callbacks, hr]
  · cases hr : (respond r).2 <;>
      simp [HttpContext.gotAll, Session.afterParse, Session.onRequest, Session.send,
        Session.shutdown, hs.connected, hs.effects, hr]

/-! ## A request in segments -/

/-- A segment arrives in the input buffer, and `OnMessage` is called. -/
def Step (respond : HttpRequest → List UInt8 × Bool) (s : Session) (d : List UInt8 × Int)
    (s' : Session) : Prop :=
  ∃ b : Buffer, b.Valid ∧ b.content = s.buffer.content ++ d.1 ∧
    s.onMessage respond b d.2 = some s'

/-- The segment that `HandleRead` takes from the socket arrives like that. -/
theorem step_of_readFd {respond : HttpRequest → List UInt8 × Bool} {s s' : Session} {b : Buffer}
    {d : List UInt8 × Int} (hv : s.buffer.Valid)
    (hl : d.1.length ≤ s.buffer.writableBytes + Buffer.extrabufSize)
    (hb : s.buffer.readFd (.received d.1) = .ok b) (h : s.onMessage respond b d.2 = some s') :
    Step respond s d s' := by
  obtain ⟨hbv, hbc⟩ := (Buffer.readFd_spec hv hl).of_ok hb
  exact ⟨b, hbv, hbc, h⟩

/-- The line at which call `i` of `OnMessage` starts if every call before it has
consumed the lines that were complete. -/
def lineStart (w : WellFormedRequest) (segments : List (List UInt8)) (i : Nat) : Nat :=
  Lines.completeLines w.lines (segments.take i).flatten.length

/-- Call `i` starts at a request line, and if it is not the last call it completes
at least that line. -/
def CallOk (w : WellFormedRequest) (segments : List (List UInt8)) (i : Nat) : Prop :=
  (i + 1 < segments.length → lineStart w segments i < lineStart w segments (i + 1)) ∧
    ∃ line, w.lines[lineStart w segments i]? = some line ∧ Accepted line

/-- Every call starts at a request line, and the lines from the last start on make
up the same request as all lines do. -/
def Restartable (w : WellFormedRequest) (segments : List (List UInt8)) : Prop :=
  (∀ i, i < segments.length → CallOk w segments i) ∧
    SameRequest (parseLines (w.lines.drop (lineStart w segments (segments.length - 1))))
      (parseLines w.lines)

/-- After the segments `done` all complete lines are consumed and nothing was sent. -/
structure Resumed (w : WellFormedRequest) (done : List (List UInt8)) (s : Session) : Prop where
  fresh : Fresh s
  content : Lines.wire 13 10 (w.lines.take (Lines.completeLines w.lines done.flatten.length)) ++
    s.buffer.content = done.flatten

/-- The line after the first `m` of a beginning of the request, and those after it. -/
theorem lines_drop {w : WellFormedRequest} {ls hs : List (List UInt8)} {l : List UInt8} {m : Nat}
    (hls : ls <+: w.lines) (h : ls.drop m = l :: hs) :
    w.lines[m]? = some l ∧ CrlfFree l ∧ ∀ x ∈ hs, CrlfFree x ∧ 58 ∈ x := by
  obtain ⟨ys, hys⟩ := hls
  have hm : m ≤ ls.length := by
    by_contra hlt
    rw [List.drop_eq_nil_of_le (by omega)] at h
    cases h
  have hdrop : w.lines.drop m = l :: (hs ++ ys) := by
    rw [← hys, List.drop_append_of_le_length hm, h]
    rfl
  have hget : w.lines[m]? = some l := by
    have h0 := congrArg (·[0]?) hdrop
    simpa using h0
  have htail : w.headerLines.drop m = hs ++ ys := by
    have h1 := congrArg (List.drop 1) hdrop
    rw [List.drop_drop] at h1
    exact h1
  refine ⟨hget, w.crlfFree l (List.mem_of_getElem? hget), ?_⟩
  intro x hx
  have hmem : x ∈ w.headerLines := List.mem_of_mem_drop (htail ▸ List.mem_append_left ys hx)
  exact ⟨w.crlfFree x (List.mem_cons_of_mem _ hmem), w.colon x hmem⟩

theorem wire_take_drop (w : WellFormedRequest) {m n : Nat} (h : m ≤ n) :
    Lines.wire (13 : UInt8) 10 (w.lines.take n) =
      Lines.wire 13 10 (w.lines.take m) ++ Lines.wire 13 10 ((w.lines.take n).drop m) := by
  rw [← Lines.wire_append]
  congr 1
  have hsplit := List.take_append_drop m (w.lines.take n)
  rw [List.take_take, Nat.min_eq_left h] at hsplit
  exact hsplit.symm

/-- What a call before the last finds in the buffer: the lines completed since the
previous call, then the beginning of one. -/
theorem resumed_content {w : WellFormedRequest} {done : List (List UInt8)} {s : Session}
    {segment rest : List UInt8} (hs : Resumed w done s)
    (hbytes : done.flatten ++ segment ++ rest = w.bytes) (hrest : rest ≠ []) :
    let m := Lines.completeLines w.lines done.flatten.length
    let n := Lines.completeLines w.lines (done ++ [segment]).flatten.length
    m ≤ n ∧ ∃ p, CrlfFree p ∧
      s.buffer.content ++ segment = Lines.wire 13 10 ((w.lines.take n).drop m) ++ p ∧
      Lines.wire 13 10 (w.lines.take n) ++ p = (done ++ [segment]).flatten := by
  intro m n
  have hflat : (done ++ [segment]).flatten = done.flatten ++ segment := by simp
  have hmn : m ≤ n := Lines.completeLines_mono _ (by rw [hflat]; simp)
  have hlt : (done ++ [segment]).flatten.length < w.bytes.length := by
    have hpos := List.length_pos_iff.mpr hrest
    simp only [← hbytes, hflat, List.length_append]
    omega
  have htake : w.bytes.take (done ++ [segment]).flatten.length = (done ++ [segment]).flatten := by
    rw [← hbytes, hflat]
    exact List.take_left
  obtain ⟨p, hp, hfree⟩ := Lines.take_wire (by decide) w.crlfFree hlt
  have hp : (done ++ [segment]).flatten = Lines.wire 13 10 (w.lines.take n) ++ p :=
    htake.symm.trans hp
  refine ⟨hmn, p, hfree, ?_, hp.symm⟩
  rw [hflat, ← hs.content, wire_take_drop w hmn, List.append_assoc, List.append_assoc] at hp
  exact List.append_cancel_left hp

/-- A call before the last either consumes a request line and what follows it, or
is answered with the 400 response. -/
theorem resumed_step {w : WellFormedRequest} {done : List (List UInt8)} {s s' : Session}
    {d : List UInt8 × Int} {rest : List UInt8} (hs : Resumed w done s)
    (hbytes : done.flatten ++ d.1 ++ rest = w.bytes) (hrest : rest ≠ [])
    (h : Step respond s d s') :
    let m := Lines.completeLines w.lines done.flatten.length
    let n := Lines.completeLines w.lines (done ++ [d.1]).flatten.length
    ((m < n ∧ ∃ line, w.lines[m]? = some line ∧ Accepted line) ∧ Resumed w (done ++ [d.1]) s') ∨
      (¬(m < n ∧ ∃ line, w.lines[m]? = some line ∧ Accepted line) ∧
        HttpEffect.badRequest ∈ s'.effects) := by
  intro m n
  obtain ⟨b, hv, hc, h⟩ := h
  obtain ⟨hmn, p, hfree, hcontent, hdone⟩ := resumed_content hs hbytes hrest
  rw [← hc] at hcontent
  have hlen : ((w.lines.take n).drop m).length = n - m := by
    have hle := Lines.completeLines_le w.lines (done ++ [d.1]).flatten.length
    rw [List.length_drop, List.length_take, Nat.min_eq_left hle]
  cases hdrop : (w.lines.take n).drop m with
  | nil =>
    rw [hdrop] at hcontent hlen
    obtain ⟨s₁, h₁, hbad, -⟩ := onMessage_incomplete respond d.2 hs.fresh
      (b := b) (by rw [CrlfFree, hcontent]; exact hfree)
    cases h.symm.trans h₁
    refine Or.inr ⟨?_, hbad⟩
    rintro ⟨hlt, -⟩
    rw [List.length_nil] at hlen
    omega
  | cons l hs' =>
    rw [hdrop] at hcontent hlen
    obtain ⟨hget, hlfree, hheaders⟩ := lines_drop (List.take_prefix n w.lines) hdrop
    by_cases ha : Accepted l
    · obtain ⟨b', -, hbc, h₁⟩ := onMessage_partial respond s d.2 hv ha
        hlfree hheaders hcontent hfree
      cases h.symm.trans h₁
      have hlt : m < n := by
        rw [List.length_cons] at hlen
        omega
      exact Or.inl ⟨⟨hlt, l, hget, ha⟩, ⟨hs.fresh.connected, hs.fresh.effects⟩, by rw [hbc, hdone]⟩
    · have hline : b.content = l ++ 13 :: 10 :: (Lines.wire 13 10 hs' ++ p) := by
        rw [hcontent, Lines.wire_cons]
        simp
      obtain ⟨s₁, h₁, hbad⟩ := onMessage_rejected respond d.2 hs.fresh hlfree
        hline ha
      cases h.symm.trans h₁
      refine Or.inr ⟨?_, hbad⟩
      rintro ⟨-, line, hline', hacc⟩
      cases hget.symm.trans hline'
      exact ha hacc

/-- Not accepted as a request line: the line that ends the headers. -/
theorem not_accepted_nil : ¬Accepted [] := by decide

/-- The last call finds all remaining lines and the empty one. It calls the user's
callback with the request they make up, or is answered with the 400 response. -/
theorem resumed_last {w : WellFormedRequest} {done : List (List UInt8)} {s s' : Session}
    {d : List UInt8 × Int} (hs : Resumed w done s) (hbytes : done.flatten ++ d.1 = w.bytes)
    (h : Step respond s d s') :
    let m := Lines.completeLines w.lines done.flatten.length
    ((∃ line, w.lines[m]? = some line ∧ Accepted line) ∧
      ∃ req, callbacks s'.effects = [req] ∧ HttpEffect.badRequest ∉ s'.effects ∧
        SameRequest req (parseLines (w.lines.drop m))) ∨
      (¬(∃ line, w.lines[m]? = some line ∧ Accepted line) ∧
        HttpEffect.badRequest ∈ s'.effects) := by
  intro m
  obtain ⟨b, hv, hc, h⟩ := h
  have hcontent : b.content = Lines.wire 13 10 (w.lines.drop m) ++ [13, 10] := by
    have hall := hbytes
    rw [← hs.content, WellFormedRequest.bytes] at hall
    rw [← List.take_append_drop m w.lines, Lines.wire_append, List.append_assoc,
      List.append_assoc, List.take_append_drop] at hall
    rw [hc]
    exact List.append_cancel_left hall
  cases hdrop : w.lines.drop m with
  | nil =>
    rw [hdrop] at hcontent
    have hempty : b.content = [] ++ 13 :: 10 :: [] := hcontent
    have hfree : CrlfFree [] := rfl
    obtain ⟨s₁, h₁, hbad⟩ := onMessage_rejected respond d.2 hs.fresh hfree hempty not_accepted_nil
    cases h.symm.trans h₁
    refine Or.inr ⟨?_, hbad⟩
    rintro ⟨line, hline, -⟩
    have hnone := congrArg (·[0]?) hdrop
    simp [hline] at hnone
  | cons l hs' =>
    rw [hdrop] at hcontent
    obtain ⟨hget, hlfree, hheaders⟩ := lines_drop (List.prefix_refl w.lines) hdrop
    by_cases ha : Accepted l
    · obtain ⟨s₁, req, h₁, hreq⟩ := onMessage_complete respond d.2 hs.fresh hv
        ha hlfree hheaders hcontent
      cases h.symm.trans h₁
      exact Or.inl ⟨⟨l, hget, ha⟩, req, hreq⟩
    · have hline : b.content = l ++ 13 :: 10 :: (Lines.wire 13 10 hs' ++ [13, 10]) := by
        rw [hcontent, Lines.wire_cons]
        simp
      obtain ⟨s₁, h₁, hbad⟩ := onMessage_rejected respond d.2 hs.fresh hlfree
        hline ha
      cases h.symm.trans h₁
      refine Or.inr ⟨?_, hbad⟩
      rintro ⟨line, hline', hacc⟩
      cases hget.symm.trans hline'
      exact ha hacc

/-- What was done stays done. -/
theorem send_effects {s : Session} {e : HttpEffect} (x : HttpEffect) (he : e ∈ s.effects) :
    e ∈ (s.send x).effects := by
  unfold Session.send
  split
  · exact List.mem_append_left _ he
  · exact he

theorem onRequest_effects {s : Session} {e : HttpEffect} {req : HttpRequest}
    (he : e ∈ s.effects) : e ∈ (s.onRequest respond req).effects := by
  have hsend := send_effects (s := { s with effects := s.effects ++ [.httpCallback req] })
    (.response (respond req).1) (List.mem_append_left _ he)
  unfold Session.onRequest
  split
  · exact hsend
  · exact hsend

theorem afterParse_effects {s : Session} {e : HttpEffect} (ok : Bool) (he : e ∈ s.effects) :
    e ∈ (s.afterParse ok).effects := by
  unfold Session.afterParse
  split
  · exact he
  · exact send_effects .badRequest he

theorem step_effects {s s' : Session} {d : List UInt8 × Int} {e : HttpEffect}
    (h : Step respond s d s') (he : e ∈ s.effects) : e ∈ s'.effects := by
  obtain ⟨b, -, -, h⟩ := h
  cases hp : HttpContext.new.parseRequest b d.2 with
  | none =>
    rw [Session.onMessage, hp] at h
    cases h
  | some r =>
    obtain ⟨ok, c, b'⟩ := r
    rw [onMessage_of_parse hp] at h
    have hparse := afterParse_effects (s := { s with buffer := b' }) ok he
    split at h
    · cases h
      exact onRequest_effects hparse
    · cases h
      exact hparse

theorem run_effects {s s' : Session} {ds : List (List UInt8 × Int)} {e : HttpEffect}
    (hr : Run (Step respond) s ds s') (he : e ∈ s.effects) : e ∈ s'.effects :=
  hr.invariant (P := fun s => e ∈ s.effects) (fun _ _ _ hs h => step_effects h hs) he

/-- The user's callback was called once, with the request of these lines, and the
400 response was not sent. -/
def ServedOnce (w : WellFormedRequest) (s : Session) : Prop :=
  ∃ req, callbacks s.effects = [req] ∧ SameRequest req (parseLines w.lines) ∧
    HttpEffect.badRequest ∉ s.effects

theorem lineStart_append (w : WellFormedRequest) (done rest : List (List UInt8)) :
    lineStart w (done ++ rest) done.length =
      Lines.completeLines w.lines done.flatten.length := by
  rw [lineStart, List.take_left]

theorem not_served_of_bad {w : WellFormedRequest} {s : Session}
    (h : HttpEffect.badRequest ∈ s.effects) : ¬ServedOnce w s := by
  rintro ⟨req, -, -, hno⟩
  exact hno h

/-- From the point where the segments `done` have been consumed, the rest is served
exactly when the calls still to come are all restartable. -/
def ServedFrom (w : WellFormedRequest) (done rest : List (List UInt8)) (s : Session) : Prop :=
  ServedOnce w s ↔
    (∀ i, done.length ≤ i → i < (done ++ rest).length → CallOk w (done ++ rest) i) ∧
    SameRequest (parseLines (w.lines.drop (lineStart w (done ++ rest) ((done ++ rest).length - 1))))
      (parseLines w.lines)

theorem servedFrom_last {w : WellFormedRequest} {done : List (List UInt8)} {s s' : Session}
    {d : List UInt8 × Int} (hs : Resumed w done s) (hbytes : done.flatten ++ d.1 = w.bytes)
    (h : Step respond s d s') : ServedFrom w done [d.1] s' := by
  have hstart := lineStart_append w done [d.1]
  have hlast : (done ++ [d.1]).length - 1 = done.length := by simp
  have hcall : (∀ i, done.length ≤ i → i < (done ++ [d.1]).length → CallOk w (done ++ [d.1]) i) ↔
      ∃ line, w.lines[Lines.completeLines w.lines done.flatten.length]? = some line ∧
        Accepted line := by
    rw [← hstart]
    constructor
    · intro hall
      exact (hall done.length (Nat.le_refl _) (by simp)).2
    · intro hline i hi hlt
      obtain rfl : i = done.length := by
        rw [List.length_append, List.length_singleton] at hlt
        omega
      refine ⟨fun hmore => ?_, hline⟩
      rw [List.length_append, List.length_singleton] at hmore
      omega
  unfold ServedFrom
  rw [hcall, hlast, hstart]
  rcases resumed_last hs hbytes h with ⟨hline, req, hreq, hno, hsame⟩ | ⟨hline, hbad⟩
  · constructor
    · rintro ⟨req', hreq', hsame', -⟩
      cases List.cons.inj (hreq.symm.trans hreq') with
      | intro he _ =>
        subst he
        exact ⟨hline, hsame.symm.trans hsame'⟩
    · rintro ⟨-, hrest⟩
      exact ⟨req, hreq, hsame.trans hrest, hno⟩
  · exact ⟨fun hserved => absurd hserved (not_served_of_bad hbad), fun hc => absurd hc.1 hline⟩

/-- One call before the last, and then the calls after it. -/
theorem servedFrom_cons {w : WellFormedRequest} {done rest : List (List UInt8)}
    {s u s' : Session} {d : List UInt8 × Int} {ds : List (List UInt8 × Int)}
    (hs : Resumed w done s) (hbytes : done.flatten ++ d.1 ++ rest.flatten = w.bytes)
    (hrest : rest.flatten ≠ []) (h : Step respond s d u) (hr : Run (Step respond) u ds s')
    (ih : Resumed w (done ++ [d.1]) u → ServedFrom w (done ++ [d.1]) rest s') :
    ServedFrom w done (d.1 :: rest) s' := by
  have hassoc : done ++ d.1 :: rest = done ++ [d.1] ++ rest := by simp
  have hstart := lineStart_append w done (d.1 :: rest)
  have hnext := lineStart_append w (done ++ [d.1]) rest
  have hlen : (done ++ [d.1]).length = done.length + 1 := by simp
  have hmore : done.length + 1 < (done ++ d.1 :: rest).length := by
    cases rest with
    | nil => exact absurd rfl hrest
    | cons r rest => simp
  rw [hlen, ← hassoc] at hnext
  unfold ServedFrom at ih ⊢
  rw [hlen, ← hassoc] at ih
  rcases resumed_step hs hbytes hrest h with ⟨⟨hlt, hline⟩, hu⟩ | ⟨hno, hbad⟩
  · rw [ih hu]
    refine and_congr ⟨?_, ?_⟩ Iff.rfl
    · intro hall i hi hi'
      rcases Nat.eq_or_lt_of_le hi with rfl | hi
      · refine ⟨fun _ => ?_, ?_⟩
        · rw [hstart, hnext]
          exact hlt
        · rw [hstart]
          exact hline
      · exact hall i hi hi'
    · exact fun hall i hi => hall i (Nat.le_of_succ_le hi)
  · refine ⟨fun hserved => absurd hserved (not_served_of_bad (run_effects hr hbad)), ?_⟩
    rintro ⟨hall, -⟩
    obtain ⟨hlt, hline⟩ := hall done.length (Nat.le_refl _) (by omega)
    have hlt := hlt hmore
    rw [hstart] at hline hlt
    rw [hnext] at hlt
    exact absurd ⟨hlt, hline⟩ hno

/-- The induction over the segments still to come. -/
theorem run_servedFrom {w : WellFormedRequest} {done : List (List UInt8)}
    {ds : List (List UInt8 × Int)} {s s' : Session} (hs : Resumed w done s) (hne : ds ≠ [])
    (hsegs : ∀ d ∈ ds, d.1 ≠ []) (hbytes : done.flatten ++ (ds.map Prod.fst).flatten = w.bytes)
    (hr : Run (Step respond) s ds s') :
    ServedFrom w done (ds.map Prod.fst) s' := by
  induction ds generalizing done s with
  | nil => exact absurd rfl hne
  | cons d ds ih =>
    obtain ⟨u, hstep, hr⟩ : ∃ u, Step respond s d u ∧ Run (Step respond) u ds s' := by
      cases hr with
      | cons h ht => exact ⟨_, h, ht⟩
    simp only [List.map_cons, List.flatten_cons] at hbytes
    cases ds with
    | nil =>
      cases hr
      exact servedFrom_last hs (by simpa using hbytes) hstep
    | cons d' ds =>
      have hrest : ((d' :: ds).map Prod.fst).flatten ≠ [] := by
        simp [hsegs d' (by simp)]
      refine servedFrom_cons hs (by rw [List.append_assoc]; exact hbytes) hrest hstep hr fun hu => ?_
      refine ih hu (by simp) (fun e he => hsegs e (List.mem_cons_of_mem _ he)) ?_ hr
      rw [← hbytes]
      simp

/-! ## The theorem -/

/-- A connection on which nothing has arrived yet. -/
structure NewSession (s : Session) : Prop where
  fresh : Fresh s
  empty : s.buffer.content = []

theorem newSession_resumed {w : WellFormedRequest} {s : Session} (hs : NewSession s) :
    Resumed w [] s := by
  refine ⟨hs.fresh, ?_⟩
  rw [List.flatten_nil, List.length_nil, Lines.completeLines_zero, hs.empty]
  rfl

/-- A request delivered whole is served. -/
theorem whole_served {w : WellFormedRequest} {s s' : Session} {t : Int} (hs : NewSession s)
    (hr : Run (Step respond) s [(w.bytes, t)] s') : ServedOnce w s' := by
  have hbytes : w.bytes ≠ [] := by simp [WellFormedRequest.bytes]
  refine (run_servedFrom (newSession_resumed hs) (by simp) (by simpa using hbytes) (by simp)
    hr).mpr ⟨?_, ?_⟩
  · intro i _ hi
    obtain rfl : i = 0 := by simpa using hi
    refine ⟨fun h => absurd h (by simp), w.requestLine, ?_, w.accepted⟩
    simp [lineStart, Lines.completeLines_zero, WellFormedRequest.lines]
  · have hzero : lineStart w ([] ++ [(w.bytes, t)].map Prod.fst)
        (([] ++ [(w.bytes, t)].map Prod.fst).length - 1) = 0 := Lines.completeLines_zero _
    rw [hzero]
    exact ⟨rfl, rfl, rfl, rfl, rfl⟩

variable (respond) in
/-- `OnMessage` returns on every input buffer. -/
theorem onMessage_returns (s : Session) {b : Buffer} (t : Int) (hv : b.Valid) :
    ∃ s', s.onMessage respond b t = some s' := by
  obtain ⟨b', hp, -⟩ := parseRequest_readLines t (c := .new) (Or.inl rfl) hv
  exact ⟨_, onMessage_of_parse hp⟩

/-- Both sessions have called the user's callback once and with the same request,
and the first has never sent the 400 response. -/
def ServedAs (s s₁ : Session) : Prop :=
  ∃ req req₁, callbacks s.effects = [req] ∧ callbacks s₁.effects = [req₁] ∧
    SameRequest req req₁ ∧ HttpEffect.badRequest ∉ s.effects

/-- For every well-formed request and every way of cutting it into segments, every
call of `OnMessage` returns, and the request is served as if it had been delivered
whole exactly when the cuts are restartable. -/
theorem segmented_request_served_iff (w : WellFormedRequest)
    (respond : HttpRequest → List UInt8 × Bool) {ds : List (List UInt8 × Int)} {t : Int}
    {s₀ s s₁ : Session} (hs : NewSession s₀) (hsegs : ∀ d ∈ ds, d.1 ≠ [])
    (hbytes : (ds.map Prod.fst).flatten = w.bytes) (hr : Run (Step respond) s₀ ds s)
    (hwhole : Run (Step respond) s₀ [(w.bytes, t)] s₁) :
    (∀ (u : Session) (b : Buffer) (t : Int), b.Valid → ∃ u', u.onMessage respond b t = some u') ∧
      (ServedAs s s₁ ↔ Restartable w (ds.map Prod.fst)) := by
  refine ⟨fun u b t hv => onMessage_returns respond u t hv, ?_⟩
  have hne : ds ≠ [] := by
    rintro rfl
    simp [WellFormedRequest.bytes] at hbytes
  obtain ⟨req₁, hreq₁, hsame₁, -⟩ := whole_served hs hwhole
  have hserved := run_servedFrom (newSession_resumed hs) hne hsegs hbytes hr
  have hiff : ServedAs s s₁ ↔ ServedOnce w s := by
    constructor
    · rintro ⟨req, req', hreq, hreq', hsame, hno⟩
      cases List.cons.inj (hreq₁.symm.trans hreq') with
      | intro he _ =>
        subst he
        exact ⟨req, hreq, hsame.trans hsame₁, hno⟩
    · rintro ⟨req, hreq, hsame, hno⟩
      exact ⟨req, req₁, hreq, hreq₁, hsame.trans hsame₁.symm, hno⟩
  unfold ServedFrom at hserved
  rw [hiff, hserved]
  simp only [List.nil_append, List.length_nil, Nat.zero_le, forall_const, Restartable]

/-- `GET / HTTP/1.1` with one header. -/
def sampleRequest : WellFormedRequest where
  requestLine := ascii "GET / HTTP/1.1"
  headerLines := [ascii "Host: a"]
  accepted := by decide
  crlfFree := by decide
  colon := by decide

/-- A connected session without input. -/
def idleSession : Session := ⟨holding [], true, []⟩

theorem idleSession_new : NewSession idleSession :=
  ⟨⟨rfl, rfl⟩, (holding_spec [] (by decide)).2⟩

/-- A user whose response is empty and closes the connection. -/
def closing (_ : HttpRequest) : List UInt8 × Bool := ([], true)

/-- A session that holds little takes a short segment. -/
theorem step_holding (s : Session) (d : List UInt8 × Int)
    (h : (s.buffer.content ++ d.1).length < 100) : ∃ s', Step closing s d s' := by
  obtain ⟨hv, hc⟩ := holding_spec _ h
  obtain ⟨s', hs'⟩ := onMessage_returns closing s d.2 hv
  exact ⟨s', _, hv, hc, hs'⟩

/-- A line that is a request line and a header line as well, three times. -/
def repeatedRequest : WellFormedRequest where
  requestLine := ascii "GET /: HTTP/1.1"
  headerLines := [ascii "GET /: HTTP/1.1", ascii "GET /: HTTP/1.1"]
  accepted := by decide
  crlfFree := by decide
  colon := by decide

/-- Cut behind its first line, the request is parsed from its second line on. -/
theorem repeated_request_served :
    ∃ s s₁, Run (Step closing) idleSession
        [(repeatedRequest.bytes.take 17, 7), (repeatedRequest.bytes.drop 17, 8)] s ∧
      Run (Step closing) idleSession [(repeatedRequest.bytes, 7)] s₁ ∧ ServedAs s s₁ := by
  obtain ⟨s₁, hs₁⟩ := step_holding idleSession (repeatedRequest.bytes, 7) (by decide)
  obtain ⟨hv, hc⟩ := holding_spec (repeatedRequest.bytes.take 17) (by decide)
  have hline : (holding (repeatedRequest.bytes.take 17)).content =
      Lines.wire 13 10 [repeatedRequest.requestLine] ++ [] := hc
  obtain ⟨b, -, hb, hfirst⟩ := onMessage_partial closing idleSession 7 hv
    repeatedRequest.accepted rfl (by simp) hline rfl
  have hstep : Step closing idleSession (repeatedRequest.bytes.take 17, 7)
      { idleSession with buffer := b } :=
    ⟨_, hv, by rw [hc, idleSession_new.empty]; rfl, hfirst⟩
  obtain ⟨s, hs⟩ := step_holding { idleSession with buffer := b }
    (repeatedRequest.bytes.drop 17, 8) (by rw [hb]; decide)
  have hr := Run.cons hstep (Run.single hs)
  refine ⟨s, s₁, hr, .single hs₁, ?_⟩
  have hsame : SameRequest (parseLines (repeatedRequest.lines.drop 1))
      (parseLines repeatedRequest.lines) :=
    ⟨rfl, rfl, rfl, rfl, (Function.update_idem ..).symm⟩
  refine (segmented_request_served_iff repeatedRequest closing idleSession_new (by decide)
    (by decide) hr (.single hs₁)).2.mpr ⟨?_, hsame⟩
  intro i hi
  have hcases : i = 0 ∨ i = 1 := by
    have : i < 2 := hi
    omega
  rcases hcases with rfl | rfl
  · exact ⟨fun _ => by decide, _, rfl, repeatedRequest.accepted⟩
  · exact ⟨fun h => absurd h (by decide), _, rfl, repeatedRequest.accepted⟩

/-- Cut inside its method, the request is answered with the 400 response. -/
theorem cut_sample_rejected :
    ∃ s s₁, Run (Step closing) idleSession
        [(sampleRequest.bytes.take 2, 7), (sampleRequest.bytes.drop 2, 8)] s ∧
      Run (Step closing) idleSession [(sampleRequest.bytes, 7)] s₁ ∧
      HttpEffect.badRequest ∈ s.effects ∧ ¬ServedAs s s₁ := by
  obtain ⟨s₁, hs₁⟩ := step_holding idleSession (sampleRequest.bytes, 7) (by decide)
  obtain ⟨hv, hc⟩ := holding_spec (sampleRequest.bytes.take 2) (by decide)
  obtain ⟨u, hu, hbad, hub⟩ := onMessage_incomplete closing 7
    idleSession_new.fresh (b := holding (sampleRequest.bytes.take 2)) (by decide)
  have hstep : Step closing idleSession (sampleRequest.bytes.take 2, 7) u :=
    ⟨_, hv, by rw [hc, idleSession_new.empty]; rfl, hu⟩
  obtain ⟨s, hs⟩ := step_holding u (sampleRequest.bytes.drop 2, 8) (by rw [hub, hc]; decide)
  have hr : Run (Step closing) u [(sampleRequest.bytes.drop 2, 8)] s := .single hs
  have hsent := run_effects hr hbad
  refine ⟨s, s₁, .cons hstep hr, .single hs₁, hsent, ?_⟩
  rintro ⟨req, req₁, -, -, -, hno⟩
  exact hno hsent

end RyanNetwork.Http
