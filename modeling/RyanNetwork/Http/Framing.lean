import RyanNetwork.Buffer.Series
import RyanNetwork.Http.PrintParse
import RyanNetwork.Http.Response

/-!
# Responses can be taken apart again

What `AppendToBuffer` appends is a head of lines ended by CRLF, an empty line, and the
body. A decoder that splits at CRLF up to the first empty line recovers every part of
the response. The strings are appended one by one, so all of this rests on `Append`
taking each of them, which their lengths and the sizes of the buffer decide.
-/
namespace RyanNetwork.Http.Framing

open Lib HttpContext HttpResponse

set_option autoImplicit false

/-! ## A decoder of responses -/

/-- What a client reads off a response. -/
structure Decoded where
  statusCode : Nat
  statusMessage : List UInt8
  close : Bool
  contentLength : Option Nat
  headers : List (List UInt8 × List UInt8)
  body : List UInt8
  deriving DecidableEq, Repr

/-- The lines up to the first empty one, and the bytes behind that. -/
def splitHead (bytes : List UInt8) : Option (List (List UInt8) × List UInt8) :=
  match (Lines.split 13 10 bytes).1.dropWhile (· ≠ []) with
  | [] => none
  | _ :: rest =>
    some ((Lines.split 13 10 bytes).1.takeWhile (· ≠ []),
      Lines.wire 13 10 rest ++ (Lines.split 13 10 bytes).2)

def decodeNumber (text : List UInt8) : Nat :=
  Nat.ofDigitChars 10 (text.map fun byte => Char.ofNat byte.toNat) 0

/-- The text behind a given beginning. -/
def after (beginning text : List UInt8) : Option (List UInt8) :=
  if text.take beginning.length = beginning then some (text.drop beginning.length) else none

def decodeStatus (line : List UInt8) : Option (Nat × List UInt8) := do
  let rest ← after (ascii "HTTP/1.1 ") line
  let space ← find ' ' rest
  return (decodeNumber (rest.take space), rest.drop (space + 1))

def decodeHeader (line : List UInt8) : Option (List UInt8 × List UInt8) := do
  let colon ← find ':' line
  let value ← after (ascii ": ") (line.drop colon)
  return (line.take colon, value)

/-- The close flag and the length of the body from the first header lines, and the
header lines behind these. -/
def decodeConnection : List (List UInt8) → Option (Bool × Option Nat × List (List UInt8))
  | [] => none
  | first :: rest =>
    if first = ascii "Connection: close" then some (true, none, rest)
    else
      match after (ascii "Content-Length: ") first, rest with
      | some length, second :: rest =>
        if second = ascii "Connection: Keep-Alive" then
          some (false, some (decodeNumber length), rest)
        else none
      | _, _ => none

def decode (bytes : List UInt8) : Option Decoded := do
  let (lines, body) ← splitHead bytes
  match lines with
  | [] => none
  | status :: lines =>
    let (code, message) ← decodeStatus status
    let (close, length, lines) ← decodeConnection lines
    let headers ← lines.mapM decodeHeader
    return ⟨code, message, close, length, headers, body⟩

/-! ## Decimal texts -/

theorem decimal_eq (n : Nat) : decimal n = (Nat.toDigits 10 n).map fun c => c.toNat.toUInt8 := by
  unfold decimal ascii
  rw [Nat.toList_repr]

theorem decimal_length {n k : Nat} (hk : 0 < k) (hn : n < 10 ^ k) : (decimal n).length ≤ k := by
  rw [decimal_eq, List.length_map]
  exact (Nat.length_toDigits_le_iff (by decide) hk).mpr hn

/-- The bytes of a decimal text are those of `0` to `9`. -/
theorem decimal_digits {n : Nat} {x : UInt8} (hx : x ∈ decimal n) :
    ∃ c : Char, c.isDigit = true ∧ x = c.toNat.toUInt8 := by
  rw [decimal_eq] at hx
  obtain ⟨c, hc, rfl⟩ := List.mem_map.mp hx
  exact ⟨c, Nat.isDigit_of_mem_toDigits (by decide) (by decide) hc, rfl⟩

theorem digit_bounds {c : Char} (h : c.isDigit = true) : 48 ≤ c.toNat ∧ c.toNat ≤ 57 := by
  simp only [Char.isDigit, Bool.and_eq_true, decide_eq_true_eq, ge_iff_le,
    UInt32.le_iff_toNat_le] at h
  exact h

theorem decodeNumber_decimal (n : Nat) : decodeNumber (decimal n) = n := by
  have hid : (decimal n).map (fun byte => Char.ofNat byte.toNat) = Nat.toDigits 10 n := by
    rw [decimal_eq, List.map_map]
    conv_rhs => rw [← List.map_id (Nat.toDigits 10 n)]
    apply List.map_congr_left
    intro c hc
    have hd := digit_bounds (Nat.isDigit_of_mem_toDigits (by decide) (by decide) hc)
    have hbyte : c.toNat.toUInt8.toNat = c.toNat := by
      rw [Nat.toUInt8, UInt8.toNat_ofNat']
      omega
    simp only [Function.comp_apply, hbyte, id_eq, Char.ofNat_toNat]
  unfold decodeNumber
  rw [hid, Nat.ofDigitChars_ten_toDigits]

theorem absent_decimal {x : UInt8} (hx : x < 48) (n : Nat) : x ∉ decimal n := by
  intro hm
  obtain ⟨c, hc, rfl⟩ := decimal_digits hm
  have hd := digit_bounds hc
  rw [UInt8.lt_iff_toNat_lt, Nat.toUInt8, UInt8.toNat_ofNat'] at hx
  have h48 : (48 : UInt8).toNat = 48 := rfl
  omega

/-! ## Taking the parts apart -/

theorem after_beginning (beginning text : List UInt8) :
    after beginning (beginning ++ text) = some text := by
  unfold after
  rw [List.take_left, List.drop_left, if_pos rfl]

/-- The lines before an empty one are the head, whatever the body holds. -/
theorem splitHead_wire {lines : List (List UInt8)} (hfree : ∀ l ∈ lines, CrlfFree l)
    (hne : ∀ l ∈ lines, l ≠ []) (body : List UInt8) :
    splitHead (Lines.wire 13 10 lines ++ 13 :: 10 :: body) = some (lines, body) := by
  obtain ⟨hwire, -, -⟩ := Lines.split_spec crlf_ne body
  have hempty : Lines.split 13 10 (13 :: 10 :: body) =
      ([] :: (Lines.split 13 10 body).1, (Lines.split 13 10 body).2) :=
    Lines.split_line (l := []) (by decide) rfl body
  have hall : ∀ l ∈ lines, decide (l ≠ []) = true := fun l hl => decide_eq_true (hne l hl)
  unfold splitHead
  rw [Lines.split_wire (by decide) hfree, hempty]
  dsimp only
  rw [List.dropWhile_append_of_pos hall, List.takeWhile_append_of_pos hall,
    List.dropWhile_cons_of_neg (by decide), List.takeWhile_cons_of_neg (by decide),
    List.append_nil]
  dsimp only
  rw [hwire]

/-! ## The head of a response -/

def statusLine (r : HttpResponse) : List UInt8 :=
  ascii "HTTP/1.1 " ++ (decimal r.statusCode.val ++ 32 :: r.statusMessage)

def connectionLines (r : HttpResponse) : List (List UInt8) :=
  if r.closeConnection then [ascii "Connection: close"]
  else [ascii "Content-Length: " ++ decimal r.body.length, ascii "Connection: Keep-Alive"]

def headerLine (h : List UInt8 × List UInt8) : List UInt8 := h.1 ++ (ascii ": " ++ h.2)

/-- The lines before the empty one. -/
def headLines (r : HttpResponse) (order : List (List UInt8 × List UInt8)) : List (List UInt8) :=
  statusLine r :: (connectionLines r ++ order.map headerLine)

/-- What the callbacks keep to: no line break in the texts, no colon in a header name. -/
structure WellFormed (r : HttpResponse) : Prop where
  message : 13 ∉ r.statusMessage ∧ 10 ∉ r.statusMessage
  names : ∀ h ∈ r.headers, 58 ∉ h.1 ∧ 13 ∉ h.1 ∧ 10 ∉ h.1
  values : ∀ h ∈ r.headers, 13 ∉ h.2 ∧ 10 ∉ h.2
  body : r.body.length < 10 ^ 13

theorem decodeStatus_statusLine (r : HttpResponse) :
    decodeStatus (statusLine r) = some (r.statusCode.val, r.statusMessage) := by
  have hfind : find ' ' (decimal r.statusCode.val ++ 32 :: r.statusMessage) =
      some (decimal r.statusCode.val).length := find_first (absent_decimal (by decide) _) _
  have hrest : (decimal r.statusCode.val ++ 32 :: r.statusMessage).drop
      ((decimal r.statusCode.val).length + 1) = r.statusMessage := by
    rw [List.drop_append]
    simp
  unfold decodeStatus statusLine
  rw [after_beginning]
  simp only [Option.bind_eq_bind, Option.bind_some, hfind, List.take_left, hrest,
    decodeNumber_decimal]
  rfl

theorem decodeHeader_headerLine {h : List UInt8 × List UInt8} (hname : 58 ∉ h.1) :
    decodeHeader (headerLine h) = some h := by
  have hfind : find ':' (headerLine h) = some h.1.length := find_first hname _
  unfold decodeHeader
  rw [hfind]
  simp only [Option.bind_eq_bind, Option.bind_some, headerLine, List.take_left, List.drop_left,
    after_beginning]
  rfl

theorem mapM_decodeHeader {order : List (List UInt8 × List UInt8)}
    (hnames : ∀ h ∈ order, 58 ∉ h.1) : (order.map headerLine).mapM decodeHeader = some order := by
  induction order with
  | nil => rfl
  | cons h order ih =>
    rw [List.map_cons, List.mapM_cons, decodeHeader_headerLine (hnames h List.mem_cons_self),
      ih fun k hk => hnames k (List.mem_cons_of_mem _ hk)]
    rfl

theorem decodeConnection_connectionLines (r : HttpResponse) (lines : List (List UInt8)) :
    decodeConnection (connectionLines r ++ lines) =
      some (r.closeConnection, if r.closeConnection then none else some r.body.length, lines) := by
  unfold connectionLines
  cases r.closeConnection with
  | true => rfl
  | false =>
    have hne : ascii "Content-Length: " ++ decimal r.body.length ≠ ascii "Connection: close" := by
      intro he
      have h3 := congrArg (fun l => l.take 4) he
      rw [List.take_append_of_le_length (by decide)] at h3
      exact absurd h3 (by decide)
    simp only [Bool.false_eq_true, ↓reduceIte, List.cons_append, List.nil_append,
      decodeConnection, if_neg hne, after_beginning, decodeNumber_decimal]

theorem connectionLines_spec (r : HttpResponse) : ∀ l ∈ connectionLines r, CrlfFree l ∧ l ≠ [] := by
  intro l hl
  unfold connectionLines at hl
  cases hc : r.closeConnection with
  | true =>
    rw [hc] at hl
    obtain rfl := List.mem_singleton.mp hl
    decide
  | false =>
    rw [hc] at hl
    rcases List.mem_cons.mp hl with rfl | hl
    · refine ⟨crlfFree_of_absent ?_, ?_⟩
      · rw [List.mem_append, not_or]
        exact ⟨by decide, absent_decimal (by decide) _⟩
      · exact fun he => absurd (List.append_eq_nil_iff.mp he).1 (by decide)
    · obtain rfl := List.mem_singleton.mp hl
      decide

/-- No line of the head is empty or holds a line break. -/
theorem headLines_spec {r : HttpResponse} (hr : WellFormed r)
    {order : List (List UInt8 × List UInt8)} (ho : order.Perm r.headers) :
    ∀ l ∈ headLines r order, CrlfFree l ∧ l ≠ [] := by
  intro l hl
  rcases List.mem_cons.mp hl with rfl | hl
  · refine ⟨crlfFree_of_absent ?_, ?_⟩
    · unfold statusLine
      rw [List.mem_append, List.mem_append, List.mem_cons, not_or, not_or, not_or]
      exact ⟨by decide, absent_decimal (by decide) _, by decide, hr.message.1⟩
    · exact fun he => absurd (List.append_eq_nil_iff.mp he).1 (by decide)
  · rcases List.mem_append.mp hl with hl | hl
    · exact connectionLines_spec r l hl
    · obtain ⟨h, hh, rfl⟩ := List.mem_map.mp hl
      have hm : h ∈ r.headers := ho.mem_iff.mp hh
      refine ⟨crlfFree_of_absent ?_, ?_⟩
      · unfold headerLine
        rw [List.mem_append, List.mem_append, not_or, not_or]
        exact ⟨(hr.names h hm).2.1, by decide, (hr.values h hm).1⟩
      · intro he
        have hcolon := (List.append_eq_nil_iff.mp (List.append_eq_nil_iff.mp he).2).1
        exact absurd hcolon (by decide)

/-! ## The bytes that are appended -/

/-- The texts of `snprintf` fit its buffer. -/
theorem snprintf_fits {text : List UInt8} (h : text.length ≤ 31) : snprintf text = text :=
  List.take_of_length_le h

theorem status_fits (r : HttpResponse) :
    (ascii "HTTP/1.1 " ++ decimal r.statusCode.val ++ ascii " ").length ≤ 31 := by
  have hlen := decimal_length (n := r.statusCode.val) (k := 3) (by decide)
    (Nat.lt_trans r.statusCode.isLt (by decide))
  have h1 : (ascii "HTTP/1.1 ").length = 9 := rfl
  have h2 : (ascii " ").length = 1 := rfl
  rw [List.length_append, List.length_append]
  omega

/-- Thirteen digits are the most that `Content-Length` leaves room for. -/
theorem contentLength_fits {n : Nat} (h : n < 10 ^ 13) :
    (ascii "Content-Length: " ++ decimal n ++ crlf).length ≤ 31 := by
  have hlen := decimal_length (k := 13) (by decide) h
  have h1 : (ascii "Content-Length: ").length = 16 := rfl
  have h2 : crlf.length = 2 := rfl
  rw [List.length_append, List.length_append]
  omega

theorem flatten_headers (order : List (List UInt8 × List UInt8)) :
    (order.flatMap fun h => [h.1, ascii ": ", h.2, crlf]).flatten =
      Lines.wire 13 10 (order.map headerLine) := by
  induction order with
  | nil => rfl
  | cons h order ih =>
    rw [List.flatMap_cons, List.flatten_append, ih, List.map_cons, Lines.wire_cons]
    simp [headerLine, crlf, ascii]

/-- The pieces are the lines of the head, an empty line and the body. -/
theorem pieces_flatten {r : HttpResponse} (hr : WellFormed r)
    (order : List (List UInt8 × List UInt8)) :
    (r.pieces order).flatten =
      Lines.wire 13 10 (headLines r order) ++ 13 :: 10 :: r.body := by
  have hcrlf : crlf = [13, 10] := rfl
  have hclose : ascii "Connection: close\r\n" = ascii "Connection: close" ++ crlf := rfl
  have hkeep : ascii "Connection: Keep-Alive\r\n" = ascii "Connection: Keep-Alive" ++ crlf := rfl
  have hspace : ascii " " = [32] := rfl
  unfold pieces headLines connectionLines statusLine
  rw [snprintf_fits (status_fits r), snprintf_fits (contentLength_fits hr.body),
    List.flatten_append, List.flatten_append, flatten_headers, Lines.wire_cons,
    Lines.wire_append, hclose, hkeep, hcrlf, hspace]
  cases r.closeConnection with
  | true => simp [Lines.wire]
  | false => simp [Lines.wire]

/-- The response as the decoder gives it back. -/
def decoded (r : HttpResponse) (order : List (List UInt8 × List UInt8)) : Decoded :=
  ⟨r.statusCode.val, r.statusMessage, r.closeConnection,
    if r.closeConnection then none else some r.body.length, order, r.body⟩

theorem decode_pieces {r : HttpResponse} (hr : WellFormed r)
    {order : List (List UInt8 × List UInt8)} (ho : order.Perm r.headers) :
    decode (r.pieces order).flatten = some (decoded r order) := by
  have hspec := headLines_spec hr ho
  have hnames : ∀ h ∈ order, 58 ∉ h.1 := fun h hh => (hr.names h (ho.mem_iff.mp hh)).1
  have hsplit := splitHead_wire (fun l hl => (hspec l hl).1) (fun l hl => (hspec l hl).2) r.body
  rw [pieces_flatten hr]
  unfold decode
  rw [hsplit]
  simp only [headLines, Option.bind_eq_bind, Option.bind_some, decodeStatus_statusLine,
    decodeConnection_connectionLines, mapM_decodeHeader hnames]
  rfl

/-! ## What `Append` takes -/

/-- The lengths of the strings, in their order. -/
def lengths (r : HttpResponse) (order : List (List UInt8 × List UInt8)) : List Nat :=
  (r.pieces order).map List.length

open Buffer.Growth Buffer.Series in
/-- Behind `t` bytes all strings are appended if and only if their lengths fit. -/
theorem appendAll_iff_fitsAll {b c : Buffer} (hb : b.Valid) (hc : c.Valid) {moved : Option Nat}
    {t : Nat} (h : Reached b moved t c) (ps : List (List UInt8)) :
    (∃ d, appendAll c ps = .ok d) ↔ FitsAll b moved t (ps.map List.length) := by
  induction ps generalizing c moved t with
  | nil => exact ⟨fun _ => trivial, fun _ => ⟨c, rfl⟩⟩
  | cons p ps ih =>
    rw [List.map_cons, FitsAll, ← takes_iff_fits hb hc h]
    constructor
    · rintro ⟨e, he⟩
      obtain ⟨d, hd, he⟩ := bind_ok he
      have hv := (Buffer.append_ok hc hd).1
      exact ⟨takes_of_append hc hd, (ih hv (reached_append hb hc h hd)).mp ⟨e, he⟩⟩
    · rintro ⟨htake, hrest⟩
      obtain ⟨d, hd, -⟩ := append_of_takes hc htake
      have hv := (Buffer.append_ok hc hd).1
      obtain ⟨e, he⟩ := (ih hv (reached_append hb hc h hd)).mpr hrest
      refine ⟨e, ?_⟩
      rw [appendAll, hd]
      exact he

/-! ## The response as a whole -/

/-- Equal up to the order of the headers. -/
structure SameResponse (r s : HttpResponse) : Prop where
  statusCode : r.statusCode = s.statusCode
  statusMessage : r.statusMessage = s.statusMessage
  closeConnection : r.closeConnection = s.closeConnection
  headers : r.headers.Perm s.headers
  body : r.body = s.body

/-- `AppendToBuffer` returns, the decoder recovers the response from the bytes it has
appended, and no other response appends the same bytes. -/
structure Framed (r : HttpResponse) (order : List (List UInt8 × List UInt8)) (b : Buffer) :
    Prop where
  recovered : ∃ c wire, r.appendToBuffer order b = .ok c ∧ c.content = b.content ++ wire ∧
    decode wire = some (decoded r order)
  unambiguous : ∀ s order' b' c c' wire, WellFormed s → order'.Perm s.headers → b'.Valid →
    r.appendToBuffer order b = .ok c → c.content = b.content ++ wire →
    s.appendToBuffer order' b' = .ok c' → c'.content = b'.content ++ wire → SameResponse r s

/-- A call that returns has appended the pieces. -/
theorem appended_eq {r : HttpResponse} {order : List (List UInt8 × List UInt8)} {b c : Buffer}
    (hv : b.Valid) (h : r.appendToBuffer order b = .ok c) {wire : List UInt8}
    (hc : c.content = b.content ++ wire) : wire = (r.pieces order).flatten := by
  rw [appendToBuffer_eq] at h
  rw [(appendAll_ok hv h).2] at hc
  exact (List.append_cancel_left hc).symm

theorem sameResponse_of_decoded {r s : HttpResponse}
    {order order' : List (List UInt8 × List UInt8)} (ho : order.Perm r.headers)
    (ho' : order'.Perm s.headers) (h : decoded r order = decoded s order') :
    SameResponse r s := by
  obtain ⟨hcode, hmessage, hclose, -, horder, hbody⟩ := Decoded.mk.inj h
  refine ⟨Fin.ext hcode, hmessage, hclose, ?_, hbody⟩
  exact ho.symm.trans (horder ▸ ho')

/-- For every well-formed response, every order of its headers and every buffer: the
response is framed so that it can be recovered and told apart from every other, if and
only if the lengths of its strings fit the buffer. -/
theorem response_framed_iff {r : HttpResponse} (hr : WellFormed r)
    {order : List (List UInt8 × List UInt8)} (ho : order.Perm r.headers) {b : Buffer}
    (hv : b.Valid) : Framed r order b ↔ Buffer.Series.FitsAll b none 0 (lengths r order) := by
  rw [lengths, ← appendAll_iff_fitsAll hv hv (Buffer.Series.reached_refl hv), ← appendToBuffer_eq]
  constructor
  · rintro ⟨⟨c, wire, hc, -⟩, -⟩
    exact ⟨c, hc⟩
  · rintro ⟨c, hc⟩
    have hcontent : c.content = b.content ++ (r.pieces order).flatten := by
      rw [appendToBuffer_eq] at hc
      exact (appendAll_ok hv hc).2
    refine ⟨⟨c, _, hc, hcontent, decode_pieces hr ho⟩, ?_⟩
    intro s order' b' d d' wire hs ho' hv' hd hdc hd' hdc'
    have hwire := appended_eq hv hd hdc
    have hwire' := appended_eq hv' hd' hdc'
    have hsame : decode (r.pieces order).flatten = decode (s.pieces order').flatten := by
      rw [← hwire, ← hwire']
    rw [decode_pieces hr ho, decode_pieces hs ho'] at hsame
    exact sameResponse_of_decoded ho ho' (Option.some.inj hsame)

/-- `200 OK`, kept alive, with two headers and a body that looks like the end of a head. -/
def keptAlive : HttpResponse :=
  ((((HttpResponse.new false).setStatusCode .k200Ok).setStatusMessage (ascii "OK")).addHeader
    (ascii "Connection") (ascii "close")).addHeader [] [] |>.setBody (ascii "\r\n\r\nbody")

theorem keptAlive_framed : Framed keptAlive keptAlive.headers Buffer.ofDefaultSize := by
  have hwf : WellFormed keptAlive := ⟨by decide, by decide, by decide, by decide⟩
  have hv := Buffer.ofDefaultSize_spec.1
  refine (response_framed_iff hwf (List.Perm.refl _) hv).mpr
    (Buffer.Series.fitsAll_of_short hv ?_ ?_)
  · decide +kernel
  · decide +kernel

/-- `200 OK` with the given body, after which the connection is closed. -/
def closing (body : List UInt8) : HttpResponse :=
  (((HttpResponse.new true).setStatusCode .k200Ok).setStatusMessage (ascii "OK")).setBody body

/-- The pieces before the body are appended; for four gigabytes `MakeSpace` then finds
room enough, and leaves the buffer as it is. -/
theorem closing_head :
    ∃ c, appendAll Buffer.ofDefaultSize [ascii "HTTP/1.1 200 ", ascii "OK", crlf,
        ascii "Connection: close\r\n", crlf] = .ok c ∧
      c.ensureWritableBytes (2 ^ 32) = .ok c ∧ ¬c.writerIndex + 2 ^ 32 ≤ c.buffer.length := by
  have hhead : ((appendAll Buffer.ofDefaultSize [ascii "HTTP/1.1 200 ", ascii "OK", crlf,
      ascii "Connection: close\r\n", crlf]).map fun c =>
        decide (c.ensureWritableBytes (2 ^ 32) = .ok c ∧
          ¬c.writerIndex + 2 ^ 32 ≤ c.buffer.length)) = .ok true := by decide +kernel
  obtain ⟨c, hc, hd⟩ := ok_of_map hhead
  exact ⟨c, hc, of_decide_eq_true hd⟩

theorem closing_pieces (body : List UInt8) :
    (closing body).pieces [] = [ascii "HTTP/1.1 200 ", ascii "OK", crlf,
      ascii "Connection: close\r\n", crlf] ++ [body] := by
  have hline : snprintf (ascii "HTTP/1.1 " ++ decimal 200 ++ ascii " ") =
      ascii "HTTP/1.1 200 " := by decide +kernel
  rw [← hline]
  rfl

/-- A string that `Append` fails on, after others that it has taken. -/
theorem appendAll_error {b c : Buffer} {ps : List (List UInt8)} {p : List UInt8} {e : Fault}
    (hc : appendAll b ps = .ok c) (he : c.append p = .error e) :
    appendAll b (ps ++ [p]) = .error e := by
  rw [appendAll_append, hc, ok_bind, appendAll, he]
  rfl

theorem closing_outOfBounds {body : List UInt8} (hb : body.length = 2 ^ 32) :
    (closing body).appendToBuffer [] Buffer.ofDefaultSize = .error .outOfBounds := by
  obtain ⟨c, hc, hens, hover⟩ := closing_head
  have happend : c.append body = .error .outOfBounds := by
    rw [← hb] at hens hover
    exact Buffer.Growth.append_overrun hens hover
  rw [appendToBuffer_eq, closing_pieces]
  exact appendAll_error hc happend

theorem closing_wellFormed {body : List UInt8} (hb : body.length = 2 ^ 32) :
    WellFormed (closing body) := by
  have hmessage : 13 ∉ ascii "OK" ∧ 10 ∉ ascii "OK" := by decide
  refine ⟨hmessage, fun h hh => absurd hh List.not_mem_nil,
    fun h hh => absurd hh List.not_mem_nil, ?_⟩
  change body.length < _
  rw [hb]
  decide

theorem closing_not_framed {body : List UInt8} (hb : body.length = 2 ^ 32) :
    ¬Framed (closing body) [] Buffer.ofDefaultSize := by
  rintro ⟨⟨c, wire, hc, -⟩, -⟩
  cases (closing_outOfBounds hb).symm.trans hc

/-- A body of `2^32` bytes reaches `MakeSpace` as the `int` zero, and is copied past the end
of the buffer. -/
theorem four_gigabyte_body_not_framed :
    WellFormed (closing (List.replicate (2 ^ 32) 0)) ∧
      (closing (List.replicate (2 ^ 32) 0)).appendToBuffer [] Buffer.ofDefaultSize =
        .error .outOfBounds ∧
      ¬Framed (closing (List.replicate (2 ^ 32) 0)) [] Buffer.ofDefaultSize :=
  ⟨closing_wellFormed List.length_replicate, closing_outOfBounds List.length_replicate,
    closing_not_framed List.length_replicate⟩

end RyanNetwork.Http.Framing
