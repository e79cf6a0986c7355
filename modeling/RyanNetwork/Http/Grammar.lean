import RyanNetwork.Http.Parsing

/-!
# The requests that `ParseRequest` takes for complete

A request is a request line, header lines with a colon, and an empty line. The loop
ends a request at the first header line without a colon, so it accepts that grammar
only where this line is the empty one.
-/
namespace RyanNetwork.Http

open Lib HttpContext

set_option autoImplicit false

/-- What the call consumed is a request: its lines, then the empty one. -/
def ConsumedRequest (b b' : Buffer) : Prop :=
  ∃ w : WellFormedRequest, b.content = w.bytes ++ b'.content

/-- The first line without a colon after an accepted request line, among the complete
lines of the bytes, is empty. -/
def HeadersEndEmpty (bytes : List UInt8) : Prop :=
  ∀ line headers last rest, (Lines.split 13 10 bytes).1 = line :: headers ++ last :: rest →
    Accepted line → (∀ h ∈ headers, 58 ∈ h) → 58 ∉ last → last = []

/-- Header lines up to the first one without a colon. -/
theorem headers_cases (ls : List (List UInt8)) : (∀ h ∈ ls, 58 ∈ h) ∨
    ∃ headers last rest, ls = headers ++ last :: rest ∧ (∀ h ∈ headers, 58 ∈ h) ∧ 58 ∉ last := by
  induction ls with
  | nil => exact Or.inl (by simp)
  | cons l ls ih =>
    by_cases hl : 58 ∈ l
    · rcases ih with hall | ⟨headers, last, rest, rfl, hk, hlast⟩
      · exact Or.inl (by simpa using ⟨hl, hall⟩)
      · exact Or.inr ⟨l :: headers, last, rest, rfl, by simpa using ⟨hl, hk⟩, hlast⟩
    · exact Or.inr ⟨[], l, ls, rfl, by simp, hl⟩

/-- Where they end is determined. -/
theorem headers_unique {hs hs' rest rest' : List (List UInt8)} {last last' : List UInt8}
    (he : hs ++ last :: rest = hs' ++ last' :: rest') (hk : ∀ h ∈ hs, 58 ∈ h) (hl : 58 ∉ last)
    (hk' : ∀ h ∈ hs', 58 ∈ h) (hl' : 58 ∉ last') : last = last' := by
  induction hs generalizing hs' with
  | nil =>
    cases hs' with
    | nil => exact (List.cons.inj he).1
    | cons h hs' =>
      obtain ⟨rfl, -⟩ := List.cons.inj he
      exact absurd (hk' _ List.mem_cons_self) hl
  | cons h hs ih =>
    cases hs' with
    | nil =>
      obtain ⟨rfl, -⟩ := List.cons.inj he
      exact absurd (hk _ List.mem_cons_self) hl'
    | cons h' hs' =>
      obtain ⟨-, he⟩ := List.cons.inj he
      exact ih he (fun x hx => hk x (List.mem_cons_of_mem _ hx))
        fun x hx => hk' x (List.mem_cons_of_mem _ hx)

/-- Streams of lines without terminators in them are equal only line by line. -/
theorem wire_injective {ls ms : List (List UInt8)} (hls : ∀ l ∈ ls, CrlfFree l)
    (hms : ∀ l ∈ ms, CrlfFree l) (h : Lines.wire 13 10 ls = Lines.wire 13 10 ms) : ls = ms := by
  have h1 := Lines.split_wire (by decide) hls []
  have h2 := Lines.split_wire (by decide) hms []
  rw [h, h2] at h1
  have := congrArg Prod.fst h1
  simpa [Lines.split] using this.symm

/-- The lines that were read up to the last one make up a request exactly if it is empty. -/
theorem consumed_iff {b b' : Buffer} {line last : List UInt8} {headers rest : List (List UInt8)}
    (hlines : completed b = line :: headers ++ last :: rest) (ha : Accepted line)
    (hk : ∀ h ∈ headers, 58 ∈ h)
    (hc : b'.content = Lines.wire 13 10 rest ++ unfinished b) :
    ConsumedRequest b b' ↔ last = [] := by
  obtain ⟨hwire, hfree, -⟩ := completed_spec b
  rw [hlines] at hwire hfree
  have hread : Lines.wire 13 10 (line :: headers ++ [last]) ++ b'.content = b.content := by
    have hsplit : line :: headers ++ last :: rest = (line :: headers ++ [last]) ++ rest := by simp
    rw [← hwire, hc, hsplit, Lines.wire_append (line :: headers ++ [last]) rest, List.append_assoc]
  have hfree' : ∀ l ∈ line :: headers ++ [last], CrlfFree l := by
    intro l hl
    apply hfree
    simp only [List.mem_append, List.mem_cons, List.not_mem_nil, or_false] at hl ⊢
    rcases hl with (h | h) | h
    · exact Or.inl (Or.inl h)
    · exact Or.inl (Or.inr h)
    · exact Or.inr (Or.inl h)
  constructor
  · intro ⟨w, hw⟩
    rw [← hread] at hw
    have hbytes : Lines.wire 13 10 (line :: headers ++ [last]) =
        Lines.wire 13 10 (w.lines ++ [[]]) := by
      rw [List.append_cancel_right hw, WellFormedRequest.bytes, Lines.wire_append]
      rfl
    have hwfree : ∀ l ∈ w.lines ++ [[]], CrlfFree l := by
      intro l hl
      rcases List.mem_append.mp hl with hl | hl
      · exact w.crlfFree l hl
      · rw [List.mem_singleton.mp hl]
        rfl
    have heq := wire_injective hfree' hwfree hbytes
    have hone : [last] = [[]] := List.append_inj_right' heq rfl
    exact (List.cons.inj hone).1
  · intro hlast
    subst hlast
    refine ⟨⟨line, headers, ha, ?_, hk⟩, ?_⟩
    · intro l hl
      exact hfree' l (List.mem_append_left _ hl)
    · rw [← hread, Lines.wire_append]
      rfl

/-- The condition on the bytes, at the first line without a colon. -/
theorem headersEndEmpty_iff {b : Buffer} {line last : List UInt8} {headers rest : List (List UInt8)}
    (hlines : completed b = line :: headers ++ last :: rest) (ha : Accepted line)
    (hk : ∀ h ∈ headers, 58 ∈ h) (hlast : 58 ∉ last) :
    HeadersEndEmpty b.content ↔ last = [] := by
  constructor
  · intro hend
    exact hend line headers last rest hlines ha hk hlast
  · intro hnil line' headers' last' rest' he _ hk' hlast'
    have he : line :: headers ++ last :: rest = line' :: headers' ++ last' :: rest' :=
      hlines.symm.trans he
    obtain ⟨-, he⟩ := List.cons.inj he
    rw [← headers_unique he hk hlast hk' hlast']
    exact hnil

/-- Where no line without a colon follows an accepted request line, the request is not
complete, and the condition says nothing. -/
theorem incomplete_iff {b b' : Buffer} {c : HttpContext}
    (hnone : ∀ line headers last rest, completed b = line :: headers ++ last :: rest →
      Accepted line → 58 ∈ last) (hc : c.gotAll = false) :
    (c.gotAll = true → ConsumedRequest b b') ↔ HeadersEndEmpty b.content := by
  constructor
  · intro _ line headers last rest he ha _ hlast
    exact absurd (hnone line headers last rest he ha) hlast
  · intro _ hgot
    rw [hc] at hgot
    cases hgot

/-- For every byte string in a fresh context: `ParseRequest` returns, and whenever it
reaches `kGotAll` it has consumed exactly a request of the grammar, if and only if the
first line without a colon after an accepted request line is empty. -/
theorem accepted_requests_iff {b : Buffer} (t : Int) (hv : b.Valid) :
    ∃ ok c b', HttpContext.new.parseRequest b t = some (ok, c, b') ∧
      ((c.gotAll = true → ConsumedRequest b b') ↔ HeadersEndEmpty b.content) := by
  obtain ⟨b', hp, -, hc⟩ := parseRequest_readLines t (c := .new) (Or.inl rfl) hv
  refine ⟨_, _, b', hp, ?_⟩
  cases hls : completed b with
  | nil =>
    apply incomplete_iff ?_ rfl
    intro line headers last rest he
    cases hls.symm.trans he
  | cons line ls =>
    by_cases ha : Accepted line
    · rcases headers_cases ls with hall | ⟨headers, last, rest, rfl, hk, hlast⟩
      · obtain ⟨r, -, hr⟩ := readLines_request t ha hall []
        rw [List.append_nil] at hr
        apply incomplete_iff
        · intro line' headers last rest he _
          obtain ⟨-, rfl⟩ := List.cons.inj (hls.symm.trans he)
          exact hall last (by simp)
        · rw [hr]
          rfl
      · obtain ⟨r, -, hr⟩ := readLines_request t ha hk (last :: rest)
        have hread : readLines t .new false (line :: (headers ++ last :: rest)) =
            (true, ⟨.kGotAll, r⟩, rest) := hr.trans (readLines_noColon rfl hlast)
        have hlines : completed b = line :: headers ++ last :: rest := hls
        rw [hls, hread] at hc
        rw [hread, headersEndEmpty_iff hlines ha hk hlast, ← consumed_iff hlines ha hk hc]
        exact ⟨fun h => h rfl, fun h _ => h⟩
    · have hfalse : ¬(processRequestLine HttpContext.new.request line).1 = true := ha
      apply incomplete_iff
      · intro line' headers last rest he ha'
        obtain ⟨rfl, -⟩ := List.cons.inj (hls.symm.trans he)
        exact absurd ha' ha
      · rw [readLines_requestLine rfl, if_neg hfalse]
        rfl

/-- `GET / HTTP/1.1` with one header and an empty line. -/
theorem accepted_request_with_host :
    ∃ ok c b', HttpContext.new.parseRequest
        (holding (ascii "GET / HTTP/1.1\r\nHost: a\r\n\r\nrest")) 0 = some (ok, c, b') ∧
      c.gotAll = true ∧
      ConsumedRequest (holding (ascii "GET / HTTP/1.1\r\nHost: a\r\n\r\nrest")) b' := by
  obtain ⟨hv, hc⟩ := holding_spec (ascii "GET / HTTP/1.1\r\nHost: a\r\n\r\nrest") (by decide)
  obtain ⟨ok, c, b', hp, hiff⟩ := accepted_requests_iff 0 hv
  have hgot : ((HttpContext.new.parseRequest
      (holding (ascii "GET / HTTP/1.1\r\nHost: a\r\n\r\nrest")) 0).map fun r => r.2.1.gotAll) =
      some true := by decide +kernel
  rw [hp] at hgot
  have hgot : c.gotAll = true := Option.some.inj hgot
  refine ⟨ok, c, b', hp, hgot, hiff.mpr ?_ hgot⟩
  rw [hc]
  intro line headers last rest he _ hk hlast
  have hsplit : (Lines.split 13 10 (ascii "GET / HTTP/1.1\r\nHost: a\r\n\r\nrest")).1 =
      [ascii "GET / HTTP/1.1", ascii "Host: a"] ++ [] :: [] := by decide
  rw [hsplit] at he
  obtain ⟨-, he⟩ := List.cons.inj he
  exact (headers_unique he (by decide) (by decide) hk hlast).symm

/-- A header line without a colon is taken for the end of the headers. -/
theorem header_without_colon_completes :
    ∃ ok c b', HttpContext.new.parseRequest
        (holding (ascii "GET / HTTP/1.1\r\nfoo\r\n")) 0 = some (ok, c, b') ∧
      c.gotAll = true ∧ b'.content = [] ∧
      ¬ConsumedRequest (holding (ascii "GET / HTTP/1.1\r\nfoo\r\n")) b' := by
  have hc := (holding_spec (ascii "GET / HTTP/1.1\r\nfoo\r\n") (by decide)).2
  have hres : ((HttpContext.new.parseRequest
      (holding (ascii "GET / HTTP/1.1\r\nfoo\r\n")) 0).map fun r =>
        (r.2.1.gotAll, r.2.2.content)) = some (true, []) := by decide +kernel
  obtain ⟨⟨ok, c, b'⟩, hp, hr⟩ := Option.map_eq_some_iff.mp hres
  obtain ⟨hgot, hnil⟩ := Prod.mk.inj hr
  refine ⟨ok, c, b', hp, hgot, hnil, ?_⟩
  have hlines : completed (holding (ascii "GET / HTTP/1.1\r\nfoo\r\n")) =
      [ascii "GET / HTTP/1.1"] ++ ascii "foo" :: [] ∧
      unfinished (holding (ascii "GET / HTTP/1.1\r\nfoo\r\n")) = [] :=
    completed_eq (by decide) (by decide) (hc.trans (by decide))
  have hrest : b'.content =
      Lines.wire 13 10 [] ++ unfinished (holding (ascii "GET / HTTP/1.1\r\nfoo\r\n")) := by
    rw [hlines.2]
    exact hnil
  have hiff := consumed_iff hlines.1 (by decide) (by simp) hrest
  rw [hiff]
  decide

end RyanNetwork.Http
