import Knet.Http.Parser.Execute
import Knet.Lib.HttpMessage
import Knet.WebSocket.Routing

/-!
# Whole messages

What a decoder holds after one message, a request or a response, whose body and header values the
parser reports in any number of pieces: the body is put together only if there is one piece, the
headers are only if each value is one piece. `get_header` compares names byte by byte, where HTTP
does not tell upper case from lower case.

A request whose URL has no path is given up at the end of its head, with whatever stands behind it.
-/

namespace Knet.Http

open HttpMessage (lower)
open WebSocket (getHeader)

/-- The start line, as it is reported. -/
inductive StartLine
  | request (url : List UInt8)
  | response (reason : List UInt8) (statusCode : ℕ)

/-- A message in the pieces in which the parser reports it. -/
structure Message where
  start : StartLine
  fields : List Field
  body : List (List UInt8)
  /-- The parser reports no empty piece of a body. -/
  body_ne_nil : ∀ piece ∈ body, piece ≠ []
  /-- The header lines behind the last chunk of a chunked body. -/
  trailers : List Field
  /-- Of a value in several pieces none is empty: the second and the following start with the white
  space of a folded line. -/
  parts_ne_nil : ∀ f ∈ fields ++ trailers, 1 < f.parts.length → [] ∉ f.parts

/-! ## The vendored parser -/

/-- The callback of the decoder for a call of the parser, if it does more than write to the log. -/
def Callback.ofCall : Parser.Call → Option Callback
  | .data (.url, _) bytes => some (.onUrl bytes)
  | .data (.status, statusCode) bytes => some (.onStatus bytes statusCode)
  | .data (.headerField, _) bytes => some (.onHeaderField bytes)
  | .data (.headerValue, _) bytes => some (.onHeaderValue bytes)
  | .data (.body, _) bytes => some (.onBody bytes)
  | .notify .headersComplete => some .onHeadersComplete
  | .notify _ => none

/-- The type with which `init_parser` initialises the parser. -/
def HttpParserType.messageType : HttpParserType → Parser.MessageType
  | .httpRequest => .httpRequest
  | .httpResponse => .httpResponse

/-- `http_parser_execute` as it is in the repository, with any `http_parser_parse_url`. -/
def HttpParser.vendored (parseUrl : List UInt8 → Option UrlInfo) : HttpParser where
  execute kind data :=
    let r := (Parser.init kind.messageType).execute data
    (r.calls.filterMap fun call ↦ (Callback.ofCall call.2).map (call.1, ·), r.parsed)
  parseUrl := parseUrl

/-! ## Names -/

/-- Names that differ in letter case at most. -/
def SameName (a b : List UInt8) : Prop := a.map lower = b.map lower

instance decidableSameName (a b : List UInt8) : Decidable (SameName a b) :=
  inferInstanceAs (Decidable (_ = _))

/-- The value of the first line with the name, in any letter case. -/
def valueOf (name : List UInt8) (lines : List (List UInt8 × List UInt8)) : List UInt8 :=
  ((lines.find? fun line ↦ decide (SameName line.1 name)).map Prod.snd).getD []

/-- The value of the first line with the name in this letter case. -/
def valueSpelled (name : List UInt8) (lines : List (List UInt8 × List UInt8)) : List UInt8 :=
  ((lines.find? fun line ↦ line.1 == name).map Prod.snd).getD []

/-- The first line that has the name in some letter case has it in this one, or happens to have the
same value as the first that does: no value, if there is none. -/
def Spelled (name : List UInt8) : List (List UInt8 × List UInt8) → Prop
  | [] => True
  | line :: lines =>
    if SameName line.1 name then line.1 = name ∨ line.2 = valueSpelled name lines
    else Spelled name lines

instance decidableSpelled (name : List UInt8) : ∀ lines, Decidable (Spelled name lines)
  | [] => isTrue trivial
  | line :: lines =>
    have := decidableSpelled name lines
    inferInstanceAs (Decidable (if SameName line.1 name then _ else _))

theorem valueOf_cons (name : List UInt8) (line : List UInt8 × List UInt8)
    (lines : List (List UInt8 × List UInt8)) : valueOf name (line :: lines)
      = if SameName line.1 name then line.2 else valueOf name lines := by
  rw [valueOf, List.find?_cons]
  by_cases h : SameName line.1 name
  · rw [if_pos h, decide_eq_true h]
    rfl
  · rw [if_neg h, decide_eq_false h]
    rfl

theorem valueSpelled_cons (name : List UInt8) (line : List UInt8 × List UInt8)
    (lines : List (List UInt8 × List UInt8)) : valueSpelled name (line :: lines)
      = if line.1 = name then line.2 else valueSpelled name lines := by
  rw [valueSpelled, List.find?_cons]
  by_cases h : line.1 = name
  · rw [if_pos h, beq_iff_eq.mpr h]
    rfl
  · rw [if_neg h, beq_eq_false_iff_ne.mpr h]
    rfl

/-- **Comparing byte by byte finds the right value** exactly if the name is spelled as asked for. -/
theorem valueSpelled_eq_valueOf_iff (name : List UInt8) (lines : List (List UInt8 × List UInt8)) :
    valueSpelled name lines = valueOf name lines ↔ Spelled name lines := by
  induction lines with
  | nil => exact iff_of_true rfl trivial
  | cons line lines ih =>
    rw [Spelled, valueOf_cons, valueSpelled_cons]
    by_cases hname : line.1 = name
    · have hsame : SameName line.1 name := congrArg _ hname
      rw [if_pos hname, if_pos hsame, if_pos hsame]
      exact iff_of_true rfl (.inl hname)
    · rw [if_neg hname]
      split_ifs with hsame
      · rw [or_iff_right hname, eq_comm]
      · exact ih

/-! ## Messages -/

namespace Message

variable (p : HttpParser) (m : Message)

/-- The parser for the message. -/
def kind : HttpParserType :=
  match m.start with
  | .request _ => .httpRequest
  | .response _ _ => .httpResponse

/-- The calls for the message. -/
def calls : List Callback :=
  (match m.start with
    | .request url => .onUrl url
    | .response reason statusCode => .onStatus reason statusCode)
  :: (m.fields.flatMap Field.calls
    ++ .onHeadersComplete :: (m.body.map .onBody ++ m.trailers.flatMap Field.calls))

/-- The header lines. -/
def lines : List (List UInt8 × List UInt8) := (m.fields ++ m.trailers).map Field.header

/-- The URL of a request has no path. -/
def stops : Bool :=
  match m.start with
  | .request url => p.stops url
  | .response _ _ => false

/-- The decoder reports the whole message: the whole body, each header line once with its whole
value, and for the name the value of the first header line that has it in any letter case. -/
structure ReportedBy (name : List UInt8) (d : HttpDecoder) : Prop where
  body : d.httpBody = m.body.flatten
  headers : d.headers = m.lines
  header : getHeader d name = valueOf name m.lines

/-- All pieces are whole, and the name is spelled as asked for. -/
structure InOnePiece (name : List UInt8) : Prop where
  fields : ∀ f ∈ m.fields, f.parts.length = 1
  trailers : ∀ f ∈ m.trailers, f.parts.length = 1
  body : m.body.length ≤ 1
  stopped : m.stops p = true → m.body = [] ∧ m.trailers = []
  spelled : Spelled name m.lines

variable {p m} {name : List UInt8} {d : HttpDecoder}

/-- The end of a head leaves headers and body, and only a request without a path is refused. -/
theorem handle_onHeadersComplete (kind : HttpParserType) (d : HttpDecoder) :
    (d.handle p kind .onHeadersComplete).1.headers = d.headers
      ∧ (d.handle p kind .onHeadersComplete).1.httpBody = d.httpBody
      ∧ ((d.handle p kind .onHeadersComplete).2 = 0
        ↔ ¬(kind = .httpRequest ∧ p.stops d.requestUrl = true)) := by
  cases kind with
  | httpRequest =>
    simp only [HttpDecoder.handle, HttpDecoder.parseHeaderComplete, HttpParser.stops]
    rcases p.parseUrl d.requestUrl with _ | ⟨_ | path, query⟩
    · simp
    · simp
    · simp
  | httpResponse => exact ⟨rfl, rfl, iff_of_true rfl fun h ↦ absurd h.1 (by decide)⟩

/-- The decoder after the start line. -/
def started (m : Message) : HttpDecoder :=
  match m.start with
  | .request url => ({} : HttpDecoder).parseUrl url
  | .response reason statusCode => ({} : HttpDecoder).parseStatus reason statusCode

theorem started_eq (m : Message) : m.started.headers = [] ∧ m.started.httpBody = []
    ∧ (m.stops p = true ↔ m.kind = .httpRequest ∧ p.stops m.started.requestUrl = true) := by
  rw [started, stops, kind]
  cases m.start with
  | request url => exact ⟨rfl, rfl, (and_iff_right rfl).symm⟩
  | response reason statusCode =>
    exact ⟨rfl, rfl, iff_of_false Bool.false_ne_true fun h ↦ HttpParserType.noConfusion h.1⟩

/-- **What the decoder holds after a message.** -/
theorem collect_calls (m : Message) :
    let d := HttpDecoder.collect p m.kind {} m.calls
    d.headers = m.fields.flatMap Field.entries
        ++ (if m.stops p then [] else m.trailers.flatMap Field.entries)
      ∧ d.httpBody = if m.stops p then [] else m.body.getLastD [] := by
  obtain ⟨hheaders, hbody, hstops⟩ := started_eq (p := p) m
  obtain ⟨header, hfields⟩ := HttpDecoder.foldl_addField (d := m.started) m.fields
  have hcollect : HttpDecoder.collect p m.kind {} m.calls
      = HttpDecoder.collect p m.kind (m.fields.foldl HttpDecoder.addField m.started)
        (.onHeadersComplete :: (m.body.map .onBody ++ m.trailers.flatMap Field.calls)) := by
    rw [calls, started, kind]
    cases m.start with
    | request url =>
      rw [HttpDecoder.collect_cons_of_eq_zero rfl, HttpDecoder.collect_fields]
      rfl
    | response reason statusCode =>
      rw [HttpDecoder.collect_cons_of_eq_zero rfl, HttpDecoder.collect_fields]
      rfl
  dsimp only
  rw [hcollect]
  obtain ⟨hhead, hheadBody, hzero⟩ := handle_onHeadersComplete (p := p) m.kind
    (m.fields.foldl HttpDecoder.addField m.started)
  have hrequestUrl : (m.fields.foldl HttpDecoder.addField m.started).requestUrl
      = m.started.requestUrl := by rw [hfields]
  rw [hrequestUrl, ← hstops] at hzero
  set e := m.fields.foldl HttpDecoder.addField m.started with he
  have heheaders : e.headers = m.fields.flatMap Field.entries := by
    rw [hfields, hheaders, List.nil_append]
  have hebody : e.httpBody = [] := by rw [hfields, hbody]
  -- a request without a path ends here, any other message goes on with its body
  by_cases hstop : m.stops p = true
  · rw [HttpDecoder.collect_cons_of_ne_zero fun h ↦ hzero.mp h hstop, hhead, hheadBody,
      if_pos hstop, if_pos hstop, List.append_nil]
    exact ⟨heheaders, hebody⟩
  · set e' := (e.handle p m.kind .onHeadersComplete).1 with he'
    obtain ⟨header', htrailers⟩ := HttpDecoder.foldl_addField (d := e'.addBody m.body) m.trailers
    have htail := @HttpDecoder.collect_fields p m.kind (e'.addBody m.body) [] m.trailers
    rw [List.append_nil] at htail
    rw [HttpDecoder.collect_cons_of_eq_zero (hzero.mpr hstop), ← he', HttpDecoder.collect_body,
      htail, htrailers, HttpDecoder.addBody_eq, hhead, hheadBody, heheaders, hebody, if_neg hstop,
      if_neg hstop]
    exact ⟨rfl, rfl⟩

theorem exists_cons_cons {l : List (List UInt8)} (h : 1 < l.length) :
    ∃ a b rest, l = a :: b :: rest := by
  rcases l with _ | ⟨a, _ | ⟨b, rest⟩⟩
  · exact absurd h (by decide)
  · exact absurd h (by simp)
  · exact ⟨a, b, rest, rfl⟩

/-- The entries are the headers as far as the values came in one piece. -/
theorem entries_append_eq_iff {fs : List Field} {more more' : List (List UInt8 × List UInt8)}
    (h : ∀ f ∈ fs, 1 < f.parts.length → [] ∉ f.parts) :
    fs.flatMap Field.entries ++ more = fs.map Field.header ++ more'
      ↔ (∀ f ∈ fs, f.parts.length = 1) ∧ more = more' := by
  induction fs with
  | nil => simp
  | cons f fs ih =>
    obtain ⟨hf, hfs⟩ := List.forall_mem_cons.mp h
    rw [List.forall_mem_cons, List.flatMap_cons, List.map_cons]
    by_cases hone : f.parts.length = 1
    · rw [Field.entries_of_length_eq_one hone, List.singleton_append, List.cons_append,
        List.cons_append, List.cons.injEq, and_iff_right rfl, ih hfs, and_assoc,
        and_iff_right hone]
    · refine iff_of_false (fun heq ↦ ?_) fun h ↦ hone h.1.1
      have hpos := f.length_entries_pos
      rw [Field.entries, List.length_map] at hpos
      obtain ⟨a, b, rest, hparts⟩ := exists_cons_cons (show 1 < f.parts.length by omega)
      -- the first entry has the first piece only
      have hfirst := congrArg (fun l ↦ (l.map Prod.snd).headD []) heq
      simp only [Field.entries, Field.header, hparts, List.map_cons, List.cons_append,
        List.headD_cons, List.flatten_cons, List.self_eq_append_right,
        List.append_eq_nil_iff] at hfirst
      refine hf (by omega) ?_
      rw [hparts, ← hfirst.1]
      exact List.mem_cons_of_mem _ List.mem_cons_self

theorem entries_eq_lines_iff : m.fields.flatMap Field.entries
        ++ (if m.stops p then [] else m.trailers.flatMap Field.entries) = m.lines
      ↔ (∀ f ∈ m.fields, f.parts.length = 1) ∧ (∀ f ∈ m.trailers, f.parts.length = 1)
        ∧ (m.stops p = true → m.trailers = []) := by
  have hfields := fun f hf ↦ m.parts_ne_nil f (List.mem_append_left _ hf)
  have htrailers := fun f hf ↦ m.parts_ne_nil f (List.mem_append_right _ hf)
  rw [lines, List.map_append, entries_append_eq_iff hfields]
  refine and_congr_right fun _ ↦ ?_
  split_ifs with hstop
  · rw [eq_comm, List.map_eq_nil_iff]
    constructor
    · intro hnil
      rw [hnil]
      exact ⟨by simp, fun _ ↦ rfl⟩
    · exact fun h ↦ h.2 hstop
  · have htail := @entries_append_eq_iff m.trailers [] [] htrailers
    rw [List.append_nil, List.append_nil] at htail
    rw [htail]
    exact ⟨fun h ↦ ⟨h.1, fun h ↦ absurd h hstop⟩, fun h ↦ ⟨h.1, rfl⟩⟩

theorem body_eq_flatten_iff : (if m.stops p then [] else m.body.getLastD []) = m.body.flatten
    ↔ m.body.length ≤ 1 ∧ (m.stops p = true → m.body = []) := by
  split_ifs with hstop
  · rw [eq_comm, flatten_eq_nil_iff_of_ne_nil m.body_ne_nil]
    constructor
    · intro hnil
      rw [hnil]
      exact ⟨Nat.zero_le _, fun _ ↦ rfl⟩
    · exact fun h ↦ h.2 hstop
  · rw [getLastD_eq_flatten_iff m.body_ne_nil]
    exact ⟨fun h ↦ ⟨h, fun h ↦ absurd h hstop⟩, fun h ↦ h.1⟩

/-- **When the decoder reports the whole message.** -/
theorem reportedBy_iff : m.ReportedBy name (HttpDecoder.collect p m.kind {} m.calls)
    ↔ m.InOnePiece p name := by
  obtain ⟨hheaders, hbody⟩ := collect_calls (p := p) m
  have hget : ∀ d, getHeader d name = valueSpelled name d.headers := fun _ ↦ rfl
  constructor
  · rintro ⟨hwhole, hlines, hvalue⟩
    have hentries := entries_eq_lines_iff.mp (hheaders.symm.trans hlines)
    rw [hget, hlines, valueSpelled_eq_valueOf_iff] at hvalue
    rw [hbody, body_eq_flatten_iff] at hwhole
    obtain ⟨hfields, htrailers, hstopped⟩ := hentries
    exact ⟨hfields, htrailers, hwhole.1, fun h ↦ ⟨hwhole.2 h, hstopped h⟩, hvalue⟩
  · rintro ⟨hfields, htrailers, hone, hstopped, hspelled⟩
    have hlines := hheaders.trans (entries_eq_lines_iff.mpr
      ⟨hfields, htrailers, fun h ↦ (hstopped h).2⟩)
    refine ⟨hbody.trans (body_eq_flatten_iff.mpr ⟨hone, fun h ↦ (hstopped h).1⟩), hlines, ?_⟩
    rw [hget, hlines, valueSpelled_eq_valueOf_iff]
    exact hspelled

/-- **What a parse reports.** When the parser reports a message, in whatever pieces, the decoder
shows the whole of it exactly if each header value and the body are one piece, nothing stands behind
the head of a request that is given up, and the first header of the name is spelled as asked for. -/
theorem parse_reports_iff {data : List UInt8} (name : List UInt8)
    (hcalls : p.calls m.kind data = m.calls) :
    m.ReportedBy name (parse p m.kind data).1 ↔ m.InOnePiece p name := by
  rw [parse, hcalls]
  exact reportedBy_iff

/-! ## Messages in bytes -/

/-- A header line with a value in these pieces. -/
def fieldOf (name : String) (part : String) (parts : List String) : Field where
  name := Bytes.ofString name
  parts := (part :: parts).map Bytes.ofString
  parts_ne_nil := List.cons_ne_nil _ _

/-- A response with a header and a body. -/
def plain : Message where
  start := .response (Bytes.ofString "OK") 200
  fields := [fieldOf "Server" "knet" [], fieldOf "Content-Length" "2" []]
  body := [[104, 105]]
  body_ne_nil := by decide
  trailers := []
  parts_ne_nil := by decide

def plainBytes : List UInt8 :=
  Bytes.ofString "HTTP/1.1 200 OK\r\nServer: knet\r\nContent-Length: 2\r\n\r\nhi"

/-- The parser, when every URL is a path. -/
def parserV : HttpParser := .vendored fun url ↦ some ⟨some url, none⟩

theorem calls_plainBytes : parserV.calls plain.kind plainBytes = plain.calls := by
  decide +kernel

theorem plain_reported :
    plain.ReportedBy (Bytes.ofString "Server") (parse parserV plain.kind plainBytes).1 :=
  (parse_reports_iff _ calls_plainBytes).mpr ⟨by decide, by decide, by decide, by decide,
    by decide⟩

/-- The same response with the value folded. -/
def folded : Message := { plain with
  fields := [fieldOf "Server" "kn" [" et"], fieldOf "Content-Length" "2" []]
  parts_ne_nil := by decide }

def foldedBytes : List UInt8 :=
  Bytes.ofString "HTTP/1.1 200 OK\r\nServer: kn\r\n et\r\nContent-Length: 2\r\n\r\nhi"

/-- The same response with its body in two chunks. -/
def chunked : Message := { plain with
  fields := [fieldOf "Server" "knet" [], fieldOf "Transfer-Encoding" "chunked" []]
  body := [[104], [105]]
  body_ne_nil := by decide
  parts_ne_nil := by decide }

def chunkedBytes : List UInt8 :=
  Bytes.ofString ("HTTP/1.1 200 OK\r\nServer: knet\r\nTransfer-Encoding: chunked\r\n\r\n"
    ++ "1\r\nh\r\n1\r\ni\r\n0\r\n\r\n")

/-- A folded value, a body in two chunks, and a name in lower case. -/
theorem pieces_lost :
    ¬folded.ReportedBy (Bytes.ofString "Server") (parse parserV folded.kind foldedBytes).1
      ∧ ¬chunked.ReportedBy (Bytes.ofString "Server") (parse parserV chunked.kind chunkedBytes).1
      ∧ ¬plain.ReportedBy (Bytes.ofString "server") (parse parserV plain.kind plainBytes).1 := by
  have hfolded : parserV.calls folded.kind foldedBytes = folded.calls := by decide +kernel
  have hchunked : parserV.calls chunked.kind chunkedBytes = chunked.calls := by decide +kernel
  simp only [parse, hfolded, hchunked, calls_plainBytes, reportedBy_iff]
  refine ⟨fun h ↦ ?_, fun h ↦ ?_, fun h ↦ ?_⟩
  · exact absurd h.fields (by decide)
  · exact absurd h.body (by decide)
  · exact absurd h.spelled (by decide)

end Message

end Knet.Http
