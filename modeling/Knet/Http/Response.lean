import Knet.Http.Decoder
import Knet.Http.Encoder
import Knet.Lib.StepSystem

/-!
# Responses

A handler answers with `write` and `json`, and each call passes the encoded response to the writer.
The members of a response are updated by halves.

* `set_content` ignores an empty body. The content of an earlier call, and its length, stay; if
there was none, no length is given at all.
* `json` does not look at its message.
* `status_strings::to_string` knows some of the codes and has "400 Bad Request" for the others.
* The decoder keeps the body of a parsed response, and `body()` returns `content`, which it does not
touch.

`carried_along_iff` says what is left: an empty message, on a response without content whose length
was set to `0` by hand.
-/

namespace Knet.Http

open Bytes
open HttpMessage (InLine lengths codings readFields readNumber readResponse)

/-- The text that `encode` writes for the time. -/
structure DateText where
  bytes : List UInt8
  inLine : InLine bytes

/-- `HttpResponse`, as far as it is encoded. -/
structure HttpResponse extends HttpEncoder where
  statusCode : ℕ := 0
  /-- `writer` is set. -/
  hasWriter : Bool := false

namespace HttpResponse

/-- `HttpResponse(c, rsp, type)`. -/
def new (c : ℕ) (rsp type : List UInt8) : HttpResponse where
  statusCode := c
  toHttpEncoder := ({} : HttpEncoder).setContent rsp type

/-- `HttpEncoderHelper<_, HttpResponse>::encode`. -/
def encode (r : HttpResponse) (now : DateText) : List UInt8 :=
  statusString r.statusCode ++ ofString "\r\n" ++ r.headerLines
    ++ ofString "Server: KNet Http Server v0.1\r\n" ++ ofString "Date: " ++ now.bytes
    ++ ofString "\r\n" ++ ofString "\r\n" ++ r.content

/-- `write(msg, code)`: the response after it, and what is passed to the writer. -/
def write (r : HttpResponse) (msg : List UInt8) (code : ℕ) (now : DateText) :
    HttpResponse × Option (List UInt8) :=
  if r.hasWriter then
    let r := { r with statusCode := if r.statusCode = 0 then code else r.statusCode }
    let r := { r with toHttpEncoder := r.setContent msg (ofString "txt") }
    (r, some (r.encode now))
  else (r, none)

/-- `write()`. -/
def writeOut (r : HttpResponse) (now : DateText) : HttpResponse × Option (List UInt8) :=
  if r.hasWriter then
    let r := { r with statusCode := if r.statusCode = 0 then 200 else r.statusCode }
    (r, some (r.encode now))
  else (r, none)

/-- `json(msg)`. -/
def json (r : HttpResponse) (_ : List UInt8) (now : DateText) :
    HttpResponse × Option (List UInt8) :=
  if r.hasWriter then
    let r := { r with toHttpEncoder := r.setContentType (ofString "application/json") }
    (r, some (r.encode now))
  else (r, none)

/-- `parse` on a response that has just been made. -/
def parse (p : HttpParser) (data : List UInt8) : HttpResponse where
  statusCode := (parseResponse p data).1.statusCode

/-- `code()`. -/
def code (r : HttpResponse) : ℕ := r.statusCode

/-- `body()`. -/
def body (r : HttpResponse) : List UInt8 := r.content

/-! ### What is passed to the writer is the response as it is then -/

/-- The methods that write: a response that has a writer is changed and passed to it. -/
theorem eq_encode_of_passed {r r' : HttpResponse} {now : DateText} {sent : List UInt8}
    (h : (if r.hasWriter then (r', some (r'.encode now)) else (r, none)).2 = some sent) :
    sent = (if r.hasWriter then (r', some (r'.encode now)) else (r, none)).1.encode now := by
  by_cases hwriter : r.hasWriter = true
  · rw [if_pos hwriter] at h ⊢
    exact (Option.some.inj h).symm
  · rw [if_neg hwriter] at h
    exact absurd h.symm (Option.some_ne_none sent)

theorem eq_encode_of_write {r : HttpResponse} {now : DateText} {msg : List UInt8} {code : ℕ}
    {sent : List UInt8} (h : (r.write msg code now).2 = some sent) :
    sent = (r.write msg code now).1.encode now := by
  rw [write] at h ⊢
  exact eq_encode_of_passed h

theorem eq_encode_of_writeOut {r : HttpResponse} {now : DateText} {sent : List UInt8}
    (h : (r.writeOut now).2 = some sent) : sent = (r.writeOut now).1.encode now := by
  rw [writeOut] at h ⊢
  exact eq_encode_of_passed h

theorem eq_encode_of_json {r : HttpResponse} {now : DateText} {msg : List UInt8}
    {sent : List UInt8} (h : (r.json msg now).2 = some sent) :
    sent = (r.json msg now).1.encode now := by
  rw [json] at h ⊢
  exact eq_encode_of_passed h

/-! ## Calls -/

/-- The code of a response that may have a body. -/
structure FinalCode where
  code : ℕ
  ok : 200 ≤ code ∧ code ≤ 599 ∧ code ≠ 204 ∧ code ≠ 304

/-- A call of a handler, with the time at which it is made. -/
inductive Call
  | write (msg : List UInt8) (code : FinalCode) (now : DateText)
  | json (msg : List UInt8) (now : DateText)

/-- The message of a call. -/
def Call.msg : Call → List UInt8
  | .write msg _ _ => msg
  | .json msg _ => msg

/-- The response after a call, and what is passed to the writer. -/
def call (r : HttpResponse) : Call → HttpResponse × Option (List UInt8)
  | .write msg code now => r.write msg code.code now
  | .json msg now => r.json msg now

/-- Calls, one after the other. -/
def system : StepSystem HttpResponse Call := ⟨fun r c ↦ some (r.call c).1⟩

/-- What the vendored parser is taken to do with an encoded response that is one without a body: it
reports the code first, and no other code behind it. -/
def ReportsStatus (p : HttpParser) : Prop :=
  ∀ (r : HttpResponse) (now : DateText) (m : HttpMessage.Response),
    readResponse (r.encode now) = some m → m.body = [] →
    ∃ reason calls, p.calls .httpResponse (r.encode now) = .onStatus reason m.status :: calls
      ∧ ∀ bytes code, .onStatus bytes code ∉ calls

/-- **What a call is to pass to the writer:** one response, with the code of the response and the
message as its body, of which the length is given; and it is parsed as such. -/
def Carried (p : HttpParser) (r : HttpResponse) (c : Call) : Prop :=
  ∃ bytes, (r.call c).2 = some bytes ∧
    (∃ m, readResponse bytes = some m ∧ m.status = (r.call c).1.statusCode
      ∧ (∃ n, lengths m.fields = [n] ∧ readNumber n = some m.body.length) ∧ m.body = c.msg)
    ∧ (parse p bytes).code = (r.call c).1.statusCode ∧ (parse p bytes).body = c.msg

/-- The code that a call sends. -/
def Call.statusIn (r : HttpResponse) : Call → ℕ
  | .write _ code _ => if r.statusCode = 0 then code.code else r.statusCode
  | .json _ _ => r.statusCode

/-- The lines of the headers that a call with an empty message sends. -/
def Call.headerLinesIn (r : HttpResponse) : Call → List UInt8
  | .write _ _ _ => r.headerLines
  | .json _ _ => (r.setContentType (ofString "application/json")).headerLines

/-- The codes that `status_strings::to_string` knows, those without a body apart. -/
def listed : List ℕ := [200, 201, 202, 300, 301, 302, 400, 401, 403, 404, 500, 501, 502, 503]

/-- The message is empty and so is the content, the code is listed, and the headers are field lines
that give the length `0`, once, and no coding. -/
structure SetByHand (r : HttpResponse) (c : Call) : Prop where
  msg : c.msg = []
  content : r.content = []
  status : c.statusIn r ∈ listed
  fields : ∃ fs, readFields (c.headerLinesIn r ++ [13, 10]) = some (fs, []) ∧ codings fs = []
    ∧ ∃ n, lengths fs = [n] ∧ readNumber n = some 0

/-! ## What is written -/

/-- The lines that every response has. -/
def ownFields (now : DateText) : List HttpMessage.Field :=
  [⟨ofString "Server", ofString "KNet Http Server v0.1"⟩, ⟨ofString "Date", now.bytes⟩]

theorem encode_eq (r : HttpResponse) (now : DateText) : r.encode now =
    statusString r.statusCode ++ 13 :: 10 :: (r.headerLines
      ++ (HttpMessage.lines ((ownFields now).map HttpMessage.fieldLine)
        ++ 13 :: 10 :: r.content)) := by
  obtain ⟨hserver, hname⟩ : ofString "Server: KNet Http Server v0.1\r\n" =
      HttpMessage.fieldLine ⟨ofString "Server", ofString "KNet Http Server v0.1"⟩ ++ [13, 10]
      ∧ ofString "Date: " = ofString "Date" ++ [58, 32] := by
    decide +kernel
  have hdate : ofString "Date: " ++ now.bytes =
      HttpMessage.fieldLine ⟨ofString "Date", now.bytes⟩ := by
    rw [hname, HttpMessage.fieldLine, List.append_assoc]
    rfl
  rw [encode, hserver, HttpEncoder.ofString_crlf, HttpMessage.lines, ownFields, List.map_cons,
    List.map_cons, ← hdate]
  simp

theorem ownFields_ok (now : DateText) : ∀ f ∈ ownFields now,
    HttpMessage.IsToken f.name ∧ InLine f.value := by
  obtain ⟨hserver, hdate⟩ : (HttpMessage.IsToken (ofString "Server")
      ∧ InLine (ofString "KNet Http Server v0.1")) ∧ HttpMessage.IsToken (ofString "Date") := by
    decide +kernel
  simp [ownFields, hserver, hdate, now.inLine]

/-- The codes that there are: each text is a line, and a code that is listed stands in its own. -/
theorem statusString_table : ∀ s < 600, (13 ∉ statusString s ∧ statusString s ≠ [])
    ∧ (200 ≤ s ∧ s ≤ 599 ∧ s ≠ 204 ∧ s ≠ 304 →
      (HttpMessage.readStatusLine (statusString s) = some s ↔ s ∈ listed)) := by
  decide +kernel

theorem statusString_ok (s : ℕ) : 13 ∉ statusString s ∧ statusString s ≠ [] := by
  by_cases hs : s < 600
  · exact (statusString_table s hs).1
  · have hother : statusString s = statusString 0 := by
      unfold statusString
      split <;> first | omega | rfl
    rw [hother]
    exact (statusString_table 0 (by decide)).1

theorem readStatusLine_iff {s : ℕ} (h : 200 ≤ s ∧ s ≤ 599 ∧ s ≠ 204 ∧ s ≠ 304) :
    HttpMessage.readStatusLine (statusString s) = some s ↔ s ∈ listed :=
  (statusString_table s (by omega)).2 h

theorem ended_headerLines (e : HttpEncoder) : HttpMessage.Ended [] e.headerLines := by
  rw [HttpEncoder.headerLines, HttpEncoder.ofString_crlf]
  induction e.httpHeaders.entries.filter (·.1 ≠ []) with
  | nil => exact .inl ⟨rfl, rfl⟩
  | cons h hs ih =>
    rw [List.flatMap_cons]
    exact HttpMessage.Ended.append (.inr (List.suffix_append _ _)) ih

theorem ownFields_silent (now : DateText) :
    lengths ((ownFields now).map fun f ↦ ⟨f.name, HttpMessage.trim f.value⟩) = []
      ∧ codings ((ownFields now).map fun f ↦ ⟨f.name, HttpMessage.trim f.value⟩) = [] := by
  obtain ⟨hserver, hdate⟩ : ((ofString "Server").map HttpMessage.lower ≠ ofString "content-length"
        ∧ (ofString "Server").map HttpMessage.lower ≠ ofString "transfer-encoding")
      ∧ (ofString "Date").map HttpMessage.lower ≠ ofString "content-length"
        ∧ (ofString "Date").map HttpMessage.lower ≠ ofString "transfer-encoding" := by
    decide +kernel
  rw [lengths, codings, HttpMessage.valuesOf_eq_nil_iff, HttpMessage.valuesOf_eq_nil_iff]
  simp [ownFields, hserver, hdate]

/-- When an encoded response is read as an empty one with its own code. -/
theorem readsEmpty_encode_iff {r : HttpResponse} (now : DateText)
    (h : r.statusCode = 0 ∨ (200 ≤ r.statusCode ∧ r.statusCode ≤ 599 ∧ r.statusCode ≠ 204
      ∧ r.statusCode ≠ 304)) :
    HttpMessage.ReadsEmpty (r.encode now) r.statusCode ↔
      r.statusCode ∈ listed ∧ r.content = [] ∧
        ∃ fs, readFields (r.headerLines ++ [13, 10]) = some (fs, []) ∧ codings fs = []
          ∧ ∃ n, lengths fs = [n] ∧ readNumber n = some 0 := by
  rw [encode_eq]
  rcases h with hzero | hfinal
  · -- the line for a code that was not set says "400"
    rw [hzero]
    constructor
    · rintro ⟨m, hread, hstatus, -⟩
      have hcode := HttpMessage.status_of_readResponse (statusString_ok 0) hread
      rw [hstatus] at hcode
      exact absurd hcode (by decide +kernel)
    · rintro ⟨hlisted, -⟩
      exact absurd hlisted (by decide)
  · have hbodiless : HttpMessage.bodiless r.statusCode = false := by
      simp [HttpMessage.bodiless, hfinal]
    rw [HttpMessage.readsEmpty_iff (statusString_ok _) (ended_headerLines _) (ownFields_ok now)
      (ownFields_silent now).1 (ownFields_silent now).2 hbodiless, readStatusLine_iff hfinal]

/-! ## What is parsed -/

theorem statusCode_collect {p : HttpParser} {d : HttpDecoder} {calls : List Callback}
    (h : ∀ bytes code, .onStatus bytes code ∉ calls) :
    (HttpDecoder.collect p .httpResponse d calls).statusCode = d.statusCode := by
  induction calls generalizing d with
  | nil => rfl
  | cons call calls ih =>
    have hrest : ∀ bytes code, .onStatus bytes code ∉ calls :=
      fun bytes code hmem ↦ h bytes code (List.mem_cons_of_mem _ hmem)
    cases call with
    | onStatus bytes code => exact absurd List.mem_cons_self (h bytes code)
    | onUrl bytes => rw [HttpDecoder.collect_cons_of_eq_zero rfl, ih hrest]; rfl
    | onHeaderField bytes => rw [HttpDecoder.collect_cons_of_eq_zero rfl, ih hrest]; rfl
    | onHeaderValue bytes => rw [HttpDecoder.collect_cons_of_eq_zero rfl, ih hrest]; rfl
    | onHeadersComplete => rw [HttpDecoder.collect_cons_of_eq_zero rfl, ih hrest]; rfl
    | onBody bytes => rw [HttpDecoder.collect_cons_of_eq_zero rfl, ih hrest]; rfl

theorem code_parse {p : HttpParser} (hp : ReportsStatus p) {r : HttpResponse} {now : DateText}
    {m : HttpMessage.Response} (h : readResponse (r.encode now) = some m) (hbody : m.body = []) :
    (parse p (r.encode now)).code = m.status := by
  obtain ⟨reason, calls, hcalls, hrest⟩ := hp r now m h hbody
  rw [code, parse, parseResponse, Http.parse, hcalls, HttpDecoder.collect_cons_of_eq_zero rfl,
    statusCode_collect hrest]
  rfl

/-- **Its body is always empty.** -/
theorem body_parse (p : HttpParser) (data : List UInt8) : (parse p data).body = [] := rfl

/-! ## One call -/

/-- What a handler is given: a writer, and no code or the code of a response with a body. -/
structure Answering (r : HttpResponse) : Prop where
  hasWriter : r.hasWriter = true
  status : r.statusCode = 0 ∨ (200 ≤ r.statusCode ∧ r.statusCode ≤ 599 ∧ r.statusCode ≠ 204
    ∧ r.statusCode ≠ 304)

theorem call_eq {r : HttpResponse} (h : r.hasWriter = true) (c : Call) :
    ∃ now, (r.call c).2 = some ((r.call c).1.encode now)
      ∧ (r.call c).1.statusCode = c.statusIn r ∧ (r.call c).1.hasWriter = true
      ∧ (c.msg = [] → (r.call c).1.content = r.content
        ∧ (r.call c).1.headerLines = c.headerLinesIn r) := by
  cases c with
  | write msg code now =>
    rw [call, write, if_pos h]
    refine ⟨now, rfl, rfl, h, ?_⟩
    intro hmsg
    obtain rfl : msg = [] := hmsg
    exact ⟨rfl, rfl⟩
  | json msg now =>
    rw [call, json, if_pos h]
    exact ⟨now, rfl, rfl, h, fun _ ↦ ⟨rfl, rfl⟩⟩

theorem Answering.call {r : HttpResponse} (h : Answering r) (c : Call) :
    Answering (r.call c).1 := by
  obtain ⟨now, -, hstatus, hwriter, -⟩ := call_eq h.hasWriter c
  refine ⟨hwriter, ?_⟩
  rw [hstatus]
  cases c with
  | write msg code now =>
    rw [Call.statusIn]
    split_ifs with hzero
    · exact .inr code.ok
    · exact h.status
  | json msg now => exact h.status

theorem carried_iff {p : HttpParser} (hp : ReportsStatus p) {r : HttpResponse} (h : Answering r)
    (c : Call) : Carried p r c ↔ SetByHand r c := by
  obtain ⟨now, hsent, hstatus, -, hempty⟩ := call_eq h.hasWriter c
  have hreads := readsEmpty_encode_iff now (h.call c).status
  constructor
  · rintro ⟨bytes, hbytes, ⟨m, hread, hcode, hlength, hbody⟩, -, hparsed⟩
    rw [hsent, Option.some.injEq] at hbytes
    subst hbytes
    have hmsg : c.msg = [] := hparsed.symm
    obtain ⟨hlisted, hcontent, hfields⟩ := hreads.mp ⟨m, hread, hcode, hlength, hbody.trans hmsg⟩
    rw [(hempty hmsg).1] at hcontent
    rw [(hempty hmsg).2] at hfields
    exact ⟨hmsg, hcontent, hstatus ▸ hlisted, hfields⟩
  · rintro ⟨hmsg, hcontent, hlisted, hfields⟩
    rw [← (hempty hmsg).1] at hcontent
    rw [← (hempty hmsg).2] at hfields
    rw [← hstatus] at hlisted
    obtain ⟨m, hread, hcode, hlength, hbody⟩ := hreads.mpr ⟨hlisted, hcontent, hfields⟩
    refine ⟨_, hsent, ⟨m, hread, hcode, hlength, hbody.trans hmsg.symm⟩, ?_, ?_⟩
    · rw [code_parse hp hread hbody, hcode]
    · rw [body_parse, hmsg]

/-! ## Every sequence of calls -/

/-- **The exact condition.** In a sequence of calls each one carries what the handler gave exactly
if each one has an empty message and finds everything set by hand. -/
theorem carried_along_iff {p : HttpParser} (hp : ReportsStatus p) {r : HttpResponse}
    (hr : Answering r) (calls : List Call) :
    system.Along (Carried p) r calls ↔ system.Along SetByHand r calls := by
  refine StepSystem.along_iff_of_invariant (I := Answering) hr ?_ ?_
  · intro r c r' hr hstep
    obtain rfl := Option.some.inj hstep
    exact hr.call c
  · intro r c _ hr _
    exact carried_iff hp hr c

/-! ### Two calls -/

/-- A body in one piece, if there is any. -/
def onePiece (body : List UInt8) : List (List UInt8) := if body = [] then [] else [body]

/-- The text behind the version and the code. -/
def reasonOf (data : List UInt8) : List UInt8 := (data.takeWhile (· ≠ 13)).drop 13

/-- A parser that reports what the grammar reads. -/
def grammarParser : HttpParser where
  execute _ data :=
    match readResponse data with
    | some m => ((.onStatus (reasonOf data) m.status ::
        (m.fields.flatMap (fun f ↦ [.onHeaderField f.name, .onHeaderValue f.value])
          ++ .onHeadersComplete :: (onePiece m.body).map .onBody)).map
          fun call ↦ (1, call), data.length)
    | none => ([], 0)
  parseUrl url := some ⟨some url, none⟩

theorem reportsStatus_grammarParser : ReportsStatus grammarParser := by
  intro r now m h hbody
  refine ⟨reasonOf (r.encode now), m.fields.flatMap (fun f ↦ [.onHeaderField f.name,
    .onHeaderValue f.value]) ++ .onHeadersComplete :: (onePiece m.body).map .onBody, ?_, ?_⟩
  · rw [HttpParser.calls, grammarParser]
    simp only [h, List.map_map]
    exact List.map_id _
  · intro bytes code hmem
    simp at hmem

/-- A time. -/
def epoch : DateText := ⟨ofString "Thu, 01 Jan 1970 00:00:00 UTC", by decide +kernel⟩

def ok : FinalCode := ⟨200, by decide⟩

/-- A response with a writer, whose length was set to `0`. -/
def zeroLength : HttpResponse :=
  { toHttpEncoder := ({} : HttpEncoder).addHeader (ofString "Content-Length") (ofString "0")
    hasWriter := true }

theorem carried_empty :
    system.Along (Carried grammarParser) zeroLength [.write [] ok epoch, .json [] epoch] := by
  refine (carried_along_iff reportsStatus_grammarParser ⟨rfl, .inl rfl⟩ _).mpr ?_
  refine fun r hr ↦ ⟨⟨rfl, rfl, by decide, ?_⟩, fun r' hr' ↦ ⟨?_, trivial⟩⟩
  · exact ⟨[⟨ofString "Content-Length", ofString "0"⟩], by decide +kernel, by decide +kernel,
      ofString "0", by decide +kernel, by decide +kernel⟩
  · obtain rfl := Option.some.inj hr
    refine ⟨rfl, rfl, by decide, ?_⟩
    exact ⟨[⟨ofString "Content-Length", ofString "0"⟩,
      ⟨ofString "Content-Type", ofString "application/json"⟩], by decide +kernel, by decide +kernel,
      ofString "0", by decide +kernel, by decide +kernel⟩

/-- A response with a writer. -/
def fresh : HttpResponse := { hasWriter := true }

/-- **`json` does not send its message.** -/
theorem json_sends_nothing :
    ¬system.Along (Carried grammarParser) fresh [.json (ofString "[1]") epoch] := by
  intro h
  obtain ⟨bytes, hsent, ⟨m, hread, -, -, hbody⟩, -⟩ := (h _ rfl).1
  have hempty : ((fresh.call (.json (ofString "[1]") epoch)).2.bind readResponse).map
      HttpMessage.Response.body = some [] := by
    decide +kernel
  rw [hsent, Option.bind_some, hread, Option.map_some, hbody] at hempty
  exact absurd hempty (by decide +kernel)

end HttpResponse

end Knet.Http
