import Knet.Http.Parser.Basic

/-!
# The vendored HTTP parser: its machine

`http_parser_execute` goes through the bytes it is given. What the code of a state does at a byte is
a `Step`: the parser behind it, the marks it sets and the calls it makes, and how it goes on. A jump
back to `reexecute` is a call of the function of the next state here.

Header names, header values and bodies have loops of their own that go over many bytes at once.

No callback is taken to refuse: with each call comes the number that `http_parser_execute` would
return if the callback did. A callback that answers for the end of the head that there is no body is
left out.
-/

namespace Knet.Http

namespace Parser

/-! ## Steps -/

/-- What is done with marks and callbacks at a byte. -/
inductive Op
  /-- `MARK`. -/
  | mark (kind : Kind)
  /-- `CALLBACK_DATA`. -/
  | data (kind : Kind)
  /-- `CALLBACK_DATA_NOADVANCE`. -/
  | dataNoadvance (kind : Kind)
  /-- `CALLBACK_DATA_` with the present byte. -/
  | dataThrough (kind : Kind)
  /-- `CALLBACK_NOTIFY`. -/
  | notify (note : Note)
  /-- `CALLBACK_NOTIFY_NOADVANCE`. -/
  | notifyNoadvance (note : Note)
  deriving DecidableEq, Repr

/-- How the code of a state ends. -/
inductive Out
  /-- With the next byte. -/
  | next
  /-- `RETURN((p - data) + 1)`. -/
  | exit
  /-- `goto error`. -/
  | error
  deriving DecidableEq, Repr

structure Step where
  parser : Parser
  ops : List Op := []
  out : Out := .next

/-- The step with something done before it. -/
def Step.after (s : Step) (ops : List Op) : Step := { s with ops := ops ++ s.ops }

/-- `UPDATE_STATE`. -/
def goto (p : Parser) (state : State) : Parser := { p with state := state }

/-- `SET_ERRNO` and `goto error`. -/
def error (p : Parser) (errno : Errno) : Step := ⟨{ p with httpErrno := errno }, [], .error⟩

/-- `STRICT_CHECK`. -/
def strictCheck (p : Parser) (failed : Bool) (s : Step) : Step :=
  if failed then p.error .strict else s

/-! ## The start line -/

/-- `parse_url_char`. -/
def parseUrlChar (s : State) (ch : UInt8) : State :=
  if ch = ' '.toUInt8 ∨ ch = cr ∨ ch = lf then .dead
  else if ch = 9 ∨ ch = 12 then .dead
  else match s with
  | .reqSpacesBeforeUrl =>
    if ch = '/'.toUInt8 ∨ ch = '*'.toUInt8 then .reqPath
    else if isAlpha ch then .reqSchema else .dead
  | .reqSchema =>
    if isAlpha ch then .reqSchema else if ch = ':'.toUInt8 then .reqSchemaSlash else .dead
  | .reqSchemaSlash => if ch = '/'.toUInt8 then .reqSchemaSlashSlash else .dead
  | .reqSchemaSlashSlash => if ch = '/'.toUInt8 then .reqServerStart else .dead
  | .reqServerWithAt | .reqServerStart | .reqServer =>
    if s = .reqServerWithAt ∧ ch = '@'.toUInt8 then .dead
    else if ch = '/'.toUInt8 then .reqPath
    else if ch = '?'.toUInt8 then .reqQueryStringStart
    else if ch = '@'.toUInt8 then .reqServerWithAt
    else if isUserinfoChar ch ∨ ch = '['.toUInt8 ∨ ch = ']'.toUInt8 then .reqServer else .dead
  | .reqPath =>
    if isUrlChar ch then .reqPath
    else if ch = '?'.toUInt8 then .reqQueryStringStart
    else if ch = '#'.toUInt8 then .reqFragmentStart else .dead
  | .reqQueryStringStart | .reqQueryString =>
    if isUrlChar ch ∨ ch = '?'.toUInt8 then .reqQueryString
    else if ch = '#'.toUInt8 then .reqFragmentStart else .dead
  | .reqFragmentStart =>
    if isUrlChar ch ∨ ch = '?'.toUInt8 then .reqFragment
    else if ch = '#'.toUInt8 then .reqFragmentStart else .dead
  | .reqFragment =>
    if isUrlChar ch ∨ ch = '?'.toUInt8 ∨ ch = '#'.toUInt8 then .reqFragment else .dead
  | _ => .dead

/-- A character of a URL. -/
def urlChar (p : Parser) (ch : UInt8) : Step :=
  if parseUrlChar p.state ch = .dead then (p.goto .dead).error .invalidUrl
  else ⟨p.goto (parseUrlChar p.state ch), [], .next⟩

/-- What is forgotten when a message begins. -/
def beginMessage (p : Parser) : Parser := { p with flags := {}, contentLength := ullongMax }

/-- The first method that starts with a letter. -/
def firstMethod (ch : UInt8) : Option Method :=
  ([('A', .acl), ('B', .bind), ('C', .connect), ('D', .delete), ('G', .get), ('H', .head),
    ('L', .lock), ('M', .mkcol), ('N', .notify), ('O', .options), ('P', .post), ('R', .report),
    ('S', .subscribe), ('T', .trace), ('U', .unlock)] : List (Char × Method)).lookup
      (Char.ofNat ch.toNat)

/-- `s_start_req`. -/
def startReq (p : Parser) (ch : UInt8) : Step :=
  if ch = cr ∨ ch = lf then ⟨p, [], .next⟩
  else if !isAlpha ch then p.beginMessage.error .invalidMethod
  else match firstMethod ch with
  | none => { p.beginMessage with method := .delete, index := 1 : Parser }.error .invalidMethod
  | some m =>
    ⟨{ p.beginMessage with method := m, index := 1, state := .reqMethod },
      [.notify .messageBegin], .next⟩

/-- `XX(meth, pos, ch, new_meth)` in `s_req_method`. -/
def switches : List (Method × ℕ × Char × Method) :=
  [(.post, 1, 'U', .put),
    (.post, 1, 'A', .patch),
    (.post, 1, 'R', .propfind),
    (.put, 2, 'R', .purge),
    (.connect, 1, 'H', .checkout),
    (.connect, 2, 'P', .copy),
    (.mkcol, 1, 'O', .move),
    (.mkcol, 1, 'E', .merge),
    (.mkcol, 1, '-', .msearch),
    (.mkcol, 2, 'A', .mkactivity),
    (.mkcol, 3, 'A', .mkcalendar),
    (.subscribe, 1, 'E', .search),
    (.subscribe, 1, 'O', .source),
    (.report, 2, 'B', .rebind),
    (.propfind, 4, 'P', .proppatch),
    (.lock, 1, 'I', .link),
    (.unlock, 2, 'S', .unsubscribe),
    (.unlock, 2, 'B', .unbind),
    (.unlock, 3, 'I', .unlink)]

/-- The method that the name turns out to be of. -/
def Method.switch (m : Method) (i : ℕ) (ch : UInt8) : Option Method :=
  (switches.find? fun x ↦ x.1 == m && x.2.1 == i && x.2.2.1.toUInt8 == ch).map (·.2.2.2)

/-- `s_req_method`. -/
def reqMethod (p : Parser) (ch : UInt8) : Step :=
  let matched := charAt p.method.string p.index
  if ch = 0 then p.error .invalidMethod
  else if ch = ' '.toUInt8 ∧ matched = 0 then
    ⟨{ p with state := .reqSpacesBeforeUrl, index := p.index + 1 }, [], .next⟩
  else if ch = matched then ⟨{ p with index := p.index + 1 }, [], .next⟩
  else if ('A'.toUInt8 ≤ ch ∧ ch ≤ 'Z'.toUInt8) ∨ ch = '-'.toUInt8 then
    match p.method.switch p.index ch with
    | some m => ⟨{ p with method := m, index := p.index + 1 }, [], .next⟩
    | none => p.error .invalidMethod
  else p.error .invalidMethod

/-- `s_req_spaces_before_url`. -/
def reqSpacesBeforeUrl (p : Parser) (ch : UInt8) : Step :=
  if ch = ' '.toUInt8 then ⟨p, [], .next⟩
  else
    let p := if p.method = .connect then p.goto .reqServerStart else p
    (p.urlChar ch).after [.mark .url]

/-- `s_req_server` and the states behind it. -/
def reqUrl (p : Parser) (ch : UInt8) : Step :=
  if ch = ' '.toUInt8 then ⟨p.goto .reqHttpStart, [.data .url], .next⟩
  else if ch = cr ∨ ch = lf then
    ⟨{ p with
        httpMajor := 0, httpMinor := 9
        state := if ch = cr then .reqLineAlmostDone else .headerFieldStart },
      [.data .url], .next⟩
  else p.urlChar ch

/-- `s_req_http_start`. -/
def reqHttpStart (p : Parser) (ch : UInt8) : Step :=
  if ch = ' '.toUInt8 then ⟨p, [], .next⟩
  else if ch = 'H'.toUInt8 then ⟨p.goto .reqHttpH, [], .next⟩
  else if ch = 'I'.toUInt8 ∧ p.method = .source then ⟨p.goto .reqHttpI, [], .next⟩
  else p.error .invalidConstant

/-- `s_res_status`. -/
def resStatus (p : Parser) (ch : UInt8) : Step :=
  if ch = cr then ⟨p.goto .resLineAlmostDone, [.data .status], .next⟩
  else if ch = lf then ⟨p.goto .headerFieldStart, [.data .status], .next⟩
  else ⟨p, [], .next⟩

/-- `s_res_status_start`. -/
def resStatusStart (p : Parser) (ch : UInt8) : Step :=
  let p := { p with state := .resStatus, index := 0 }
  if ch = cr ∨ ch = lf then (p.resStatus ch).after [.mark .status]
  else ⟨p, [.mark .status], .next⟩

/-- `s_res_first_status_code`. -/
def resFirstStatusCode (p : Parser) (ch : UInt8) : Step :=
  if !isNumber ch then
    if ch = ' '.toUInt8 then ⟨p, [], .next⟩ else p.error .invalidStatus
  else ⟨{ p with statusCode := (ch - '0'.toUInt8).toNat, state := .resStatusCode }, [], .next⟩

/-- `s_res_status_code`. -/
def resStatusCode (p : Parser) (ch : UInt8) : Step :=
  if !isNumber ch then
    if ch = ' '.toUInt8 then ⟨p.goto .resStatusStart, [], .next⟩
    else if ch = cr ∨ ch = lf then (p.goto .resStatusStart).resStatusStart ch
    else p.error .invalidStatus
  else
    let p := { p with statusCode := p.statusCode * 10 + (ch - '0'.toUInt8).toNat }
    if 999 < p.statusCode then p.error .invalidStatus else ⟨p, [], .next⟩

/-! ## The end of a message -/

/-- `s_message_done`. -/
def messageDone (p : Parser) : Step :=
  ⟨p.goto p.newMessage, [.notify .messageComplete], if p.upgrade then .exit else .next⟩

/-- `s_headers_done`. -/
def headersDone (p : Parser) (ch : UInt8) : Step :=
  p.strictCheck (ch ≠ lf) <|
    let p := { p with nread := 0 }
    let hasBody := p.flags.chunked || (0 < p.contentLength && p.contentLength != ullongMax)
    let complete (out : Out) : Step := ⟨p.goto p.newMessage, [.notify .messageComplete], out⟩
    if p.upgrade ∧ (p.method = .connect ∨ p.flags.skipbody ∨ !hasBody) then complete .exit
    else if p.flags.skipbody then complete .next
    else if p.flags.chunked then ⟨p.goto .chunkSizeStart, [], .next⟩
    else if p.contentLength = 0 then complete .next
    else if p.contentLength ≠ ullongMax then ⟨p.goto .bodyIdentity, [], .next⟩
    else if !p.needsEof then complete .next
    else ⟨p.goto .bodyIdentityEof, [], .next⟩

/-- `s_headers_almost_done`. -/
def headersAlmostDone (p : Parser) (ch : UInt8) : Step :=
  p.strictCheck (ch ≠ lf) <|
    if p.flags.trailing then
      ((p.goto .messageDone).messageDone).after [.notifyNoadvance .chunkComplete]
    else if p.flags.chunked ∧ p.flags.contentLength then p.error .unexpectedContentLength
    else
      let upgrade :=
        if p.flags.upgrade ∧ p.flags.connectionUpgrade then
          p.type = .httpRequest ∨ p.statusCode = 101
        else p.method = .connect
      ({ p with state := .headersDone, upgrade := decide upgrade : Parser }.headersDone ch).after
        [.notifyNoadvance .headersComplete]

/-! ## Header lines -/

/-- What is looked for in a name that starts with this character. -/
def firstHeaderState (c : UInt8) : HeaderState :=
  if c = 'c'.toUInt8 then .c
  else if c = 'p'.toUInt8 then .matchingProxyConnection
  else if c = 't'.toUInt8 then .matchingTransferEncoding
  else if c = 'u'.toUInt8 then .matchingUpgrade
  else .general

/-- `s_header_field_start`. -/
def headerFieldStart (p : Parser) (ch : UInt8) : Step :=
  if ch = cr then ⟨p.goto .headersAlmostDone, [], .next⟩
  else if ch = lf then (p.goto .headersAlmostDone).headersAlmostDone ch
  else if token ch = 0 then p.error .invalidHeaderToken
  else
    ⟨{ p with index := 0, state := .headerField, headerState := firstHeaderState (token ch) },
      [.mark .headerField], .next⟩

/-- One character more of a name or a value that is compared with `text`: it is no longer equal, or
all of it has been seen, or neither. -/
def matchNext (p : Parser) (text : String) (c : UInt8) (failed found : HeaderState) : Parser :=
  let i := p.index + 1
  if text.length < i ∨ c ≠ charAt text i then { p with index := i, headerState := failed }
  else if i = text.length - 1 then { p with index := i, headerState := found }
  else { p with index := i }

/-- The inner loop of `s_header_field`, on a character that is part of a name. -/
def matchField (p : Parser) (c : UInt8) : Parser :=
  match p.headerState with
  | .general => p
  | .c =>
    { p with
      index := p.index + 1
      headerState := if c = 'o'.toUInt8 then .co else .general }
  | .co =>
    { p with
      index := p.index + 1
      headerState := if c = 'n'.toUInt8 then .con else .general }
  | .con =>
    { p with
      index := p.index + 1
      headerState :=
        if c = 'n'.toUInt8 then .matchingConnection
        else if c = 't'.toUInt8 then .matchingContentLength
        else .general }
  | .matchingConnection => p.matchNext "connection" c .general .connection
  | .matchingProxyConnection => p.matchNext "proxy-connection" c .general .connection
  | .matchingContentLength => p.matchNext "content-length" c .general .contentLength
  | .matchingTransferEncoding => p.matchNext "transfer-encoding" c .general .transferEncoding
  | .matchingUpgrade => p.matchNext "upgrade" c .general .upgrade
  -- a space is no part of a name
  | .connection | .contentLength | .transferEncoding | .upgrade =>
    { p with headerState := .general }
  -- `assert(0)`
  | _ => p

/-- `s_header_value_start`. -/
def headerValueStart (p : Parser) (ch : UInt8) : Step :=
  let p := { p with state := .headerValue, index := 0 }
  let c := toLower ch
  let go (p : Parser) : Step := ⟨p, [.mark .headerValue], .next⟩
  match p.headerState with
  | .upgrade => go { p with flags.upgrade := true, headerState := .general }
  | .transferEncoding =>
    go { p with
      headerState :=
        if c = 'c'.toUInt8 then .matchingTransferEncodingChunked else .general }
  | .contentLength =>
    if !isNumber ch then (p.error .invalidContentLength).after [.mark .headerValue]
    else if p.flags.contentLength then
      (p.error .unexpectedContentLength).after [.mark .headerValue]
    else
      go { p with
        flags.contentLength := true
        contentLength := (ch - '0'.toUInt8).toUInt64
        headerState := .contentLengthNum }
  | .contentLengthWs => go p
  | .connection =>
    go { p with
      headerState :=
        if c = 'k'.toUInt8 then .matchingConnectionKeepAlive
        else if c = 'c'.toUInt8 then .matchingConnectionClose
        else if c = 'u'.toUInt8 then .matchingConnectionUpgrade
        else .matchingConnectionToken }
  | .matchingConnectionTokenStart => go p
  | _ => go { p with headerState := .general }

/-- What the value of a header has turned out to say. -/
def Flags.conclude (f : Flags) : HeaderState → Flags
  | .connectionKeepAlive => { f with connectionKeepAlive := true }
  | .connectionClose => { f with connectionClose := true }
  | .transferEncodingChunked => { f with chunked := true }
  | .connectionUpgrade => { f with connectionUpgrade := true }
  | _ => f

/-- `s_header_value_lws`. -/
def headerValueLws (p : Parser) (ch : UInt8) : Step :=
  if ch = ' '.toUInt8 ∨ ch = 9 then
    ({ p with
      headerState :=
        if p.headerState = .contentLengthNum then .contentLengthWs else p.headerState
      state := .headerValueStart : Parser }).headerValueStart ch
  else
    ({ p with
      flags := p.flags.conclude p.headerState
      state := .headerFieldStart : Parser }).headerFieldStart ch

/-- `s_header_almost_done`. -/
def headerAlmostDone (p : Parser) (ch : UInt8) : Step :=
  if ch ≠ lf then p.error .lfExpected else ⟨p.goto .headerValueLws, [], .next⟩

/-- `s_header_value_discard_ws`. -/
def headerValueDiscardWs (p : Parser) (ch : UInt8) : Step :=
  if ch = ' '.toUInt8 ∨ ch = 9 then ⟨p, [], .next⟩
  else if ch = cr then ⟨p.goto .headerValueDiscardWsAlmostDone, [], .next⟩
  else if ch = lf then ⟨p.goto .headerValueDiscardLws, [], .next⟩
  else p.headerValueStart ch

/-- `s_header_value_discard_lws`. -/
def headerValueDiscardLws (p : Parser) (ch : UInt8) : Step :=
  if ch = ' '.toUInt8 ∨ ch = 9 then ⟨p.goto .headerValueDiscardWs, [], .next⟩
  else if p.headerState = .contentLength then p.error .invalidContentLength
  else
    ({ p with
      flags := p.flags.conclude p.headerState
      state := .headerFieldStart : Parser }.headerFieldStart ch).after
        [.mark .headerValue, .dataNoadvance .headerValue]

/-- The inner loop of `s_header_value`, on a character of a value; `none` if it is no length. -/
def matchValue (p : Parser) (ch : UInt8) : Option Parser :=
  let c := toLower ch
  match p.headerState with
  | .general => some p
  -- `assert(0)`
  | .connection | .transferEncoding => some p
  | .contentLength | .contentLengthNum =>
    if ch = ' '.toUInt8 then
      some { p with
        headerState :=
          if p.headerState = .contentLength then .contentLength else .contentLengthWs }
    else if !isNumber ch then none
    else if (ullongMax - 10) / 10 < p.contentLength then none
    else
      some { p with
        headerState := .contentLengthNum
        contentLength := p.contentLength * 10 + (ch - '0'.toUInt8).toUInt64 }
  | .contentLengthWs => if ch = ' '.toUInt8 then some p else none
  | .matchingTransferEncodingChunked =>
    some (p.matchNext "chunked" c .general .transferEncodingChunked)
  | .matchingConnectionTokenStart =>
    some { p with
      headerState :=
        if c = 'k'.toUInt8 then .matchingConnectionKeepAlive
        else if c = 'c'.toUInt8 then .matchingConnectionClose
        else if c = 'u'.toUInt8 then .matchingConnectionUpgrade
        else if token c ≠ 0 then .matchingConnectionToken
        else if c = ' '.toUInt8 ∨ c = 9 then .matchingConnectionTokenStart
        else .general }
  | .matchingConnectionKeepAlive =>
    some (p.matchNext "keep-alive" c .matchingConnectionToken .connectionKeepAlive)
  | .matchingConnectionClose =>
    some (p.matchNext "close" c .matchingConnectionToken .connectionClose)
  | .matchingConnectionUpgrade =>
    some (p.matchNext "upgrade" c .matchingConnectionToken .connectionUpgrade)
  | .matchingConnectionToken =>
    if ch = ','.toUInt8 then
      some { p with headerState := .matchingConnectionTokenStart, index := 0 }
    else some p
  | .transferEncodingChunked =>
    if ch = ' '.toUInt8 then some p else some { p with headerState := .general }
  | .connectionKeepAlive | .connectionClose | .connectionUpgrade =>
    if ch = ','.toUInt8 then
      some { p with
        flags := p.flags.conclude p.headerState
        headerState := .matchingConnectionTokenStart
        index := 0 }
    else if ch = ' '.toUInt8 then some p
    else some { p with headerState := .matchingConnectionToken }
  | _ => some { p with headerState := .general }

/-- The value is no length. -/
def noLength (p : Parser) : Parser :=
  { p with
    httpErrno := .invalidContentLength
    headerState :=
      if p.headerState = .contentLengthWs then .contentLengthWs else .contentLengthNum }

/-! ## Chunks -/

/-- `s_chunk_size`. -/
def chunkSize (p : Parser) (ch : UInt8) : Step :=
  if ch = cr then ⟨p.goto .chunkSizeAlmostDone, [], .next⟩
  else match unhex ch with
  | none =>
    if ch = ';'.toUInt8 ∨ ch = ' '.toUInt8 then ⟨p.goto .chunkParameters, [], .next⟩
    else p.error .invalidChunkSize
  | some digit =>
    if (ullongMax - 16) / 16 < p.contentLength then p.error .invalidContentLength
    else ⟨{ p with contentLength := p.contentLength * 16 + digit.toUInt64 }, [], .next⟩

/-- `s_chunk_size_almost_done`. -/
def chunkSizeAlmostDone (p : Parser) (ch : UInt8) : Step :=
  p.strictCheck (ch ≠ lf) <|
    let p := { p with nread := 0 }
    if p.contentLength = 0 then
      ⟨{ p with flags.trailing := true, state := .headerFieldStart }, [.notify .chunkHeader], .next⟩
    else ⟨p.goto .chunkData, [.notify .chunkHeader], .next⟩

/-! ## A byte -/

/-- A byte that has to be this one. -/
def expect (p : Parser) (ch : UInt8) (c : Char) (state : State) : Step :=
  p.strictCheck (ch ≠ c.toUInt8) ⟨p.goto state, [], .next⟩

/-- The code of a state that looks at one byte at a time. -/
def step (p : Parser) (ch : UInt8) : Step :=
  match p.state with
  | .dead => if ch = cr ∨ ch = lf then ⟨p, [], .next⟩ else p.error .closedConnection
  | .startReqOrRes =>
    if ch = cr ∨ ch = lf then ⟨p, [], .next⟩
    else if ch = 'H'.toUInt8 then
      ⟨p.beginMessage.goto .resOrRespH, [.notify .messageBegin], .next⟩
    else { p.beginMessage with type := .httpRequest, state := .startReq : Parser }.startReq ch
  | .resOrRespH =>
    if ch = 'T'.toUInt8 then ⟨{ p with type := .httpResponse, state := .resHT }, [], .next⟩
    else if ch ≠ 'E'.toUInt8 then p.error .invalidConstant
    else
      ⟨{ p with type := .httpRequest, method := .head, index := 2, state := .reqMethod }, [],
        .next⟩
  | .startRes =>
    if ch = cr ∨ ch = lf then ⟨p, [], .next⟩
    else if ch = 'H'.toUInt8 then ⟨p.beginMessage.goto .resH, [.notify .messageBegin], .next⟩
    else p.beginMessage.error .invalidConstant
  | .resH => p.expect ch 'T' .resHT
  | .resHT => p.expect ch 'T' .resHTT
  | .resHTT => p.expect ch 'P' .resHTTP
  | .resHTTP => p.expect ch '/' .resHttpMajor
  | .resHttpMajor =>
    if !isNumber ch then p.error .invalidVersion
    else ⟨{ p with httpMajor := (ch - '0'.toUInt8).toNat, state := .resHttpDot }, [], .next⟩
  | .resHttpDot =>
    if ch ≠ '.'.toUInt8 then p.error .invalidVersion else ⟨p.goto .resHttpMinor, [], .next⟩
  | .resHttpMinor =>
    if !isNumber ch then p.error .invalidVersion
    else ⟨{ p with httpMinor := (ch - '0'.toUInt8).toNat, state := .resHttpEnd }, [], .next⟩
  | .resHttpEnd =>
    if ch ≠ ' '.toUInt8 then p.error .invalidVersion
    else ⟨p.goto .resFirstStatusCode, [], .next⟩
  | .resFirstStatusCode => p.resFirstStatusCode ch
  | .resStatusCode => p.resStatusCode ch
  | .resStatusStart => p.resStatusStart ch
  | .resStatus => p.resStatus ch
  | .resLineAlmostDone => p.strictCheck (ch ≠ lf) ⟨p.goto .headerFieldStart, [], .next⟩
  | .startReq => p.startReq ch
  | .reqMethod => p.reqMethod ch
  | .reqSpacesBeforeUrl => p.reqSpacesBeforeUrl ch
  | .reqSchema | .reqSchemaSlash | .reqSchemaSlashSlash | .reqServerStart =>
    if ch = ' '.toUInt8 ∨ ch = cr ∨ ch = lf then p.error .invalidUrl else p.urlChar ch
  | .reqServer | .reqServerWithAt | .reqPath | .reqQueryStringStart | .reqQueryString
  | .reqFragmentStart | .reqFragment => p.reqUrl ch
  | .reqHttpStart => p.reqHttpStart ch
  | .reqHttpH => p.expect ch 'T' .reqHttpHT
  | .reqHttpHT => p.expect ch 'T' .reqHttpHTT
  | .reqHttpHTT => p.expect ch 'P' .reqHttpHTTP
  | .reqHttpI => p.expect ch 'C' .reqHttpIC
  | .reqHttpIC => p.expect ch 'E' .reqHttpHTTP
  | .reqHttpHTTP => p.expect ch '/' .reqHttpMajor
  | .reqHttpMajor =>
    if !isNumber ch then p.error .invalidVersion
    else ⟨{ p with httpMajor := (ch - '0'.toUInt8).toNat, state := .reqHttpDot }, [], .next⟩
  | .reqHttpDot =>
    if ch ≠ '.'.toUInt8 then p.error .invalidVersion else ⟨p.goto .reqHttpMinor, [], .next⟩
  | .reqHttpMinor =>
    if !isNumber ch then p.error .invalidVersion
    else ⟨{ p with httpMinor := (ch - '0'.toUInt8).toNat, state := .reqHttpEnd }, [], .next⟩
  | .reqHttpEnd =>
    if ch = cr then ⟨p.goto .reqLineAlmostDone, [], .next⟩
    else if ch = lf then ⟨p.goto .headerFieldStart, [], .next⟩
    else p.error .invalidVersion
  | .reqLineAlmostDone =>
    if ch ≠ lf then p.error .lfExpected else ⟨p.goto .headerFieldStart, [], .next⟩
  | .headerFieldStart => p.headerFieldStart ch
  | .headerValueDiscardWs => p.headerValueDiscardWs ch
  | .headerValueDiscardWsAlmostDone =>
    p.strictCheck (ch ≠ lf) ⟨p.goto .headerValueDiscardLws, [], .next⟩
  | .headerValueDiscardLws => p.headerValueDiscardLws ch
  | .headerValueStart => p.headerValueStart ch
  | .headerValueLws => p.headerValueLws ch
  | .headerAlmostDone => p.headerAlmostDone ch
  | .headersAlmostDone => p.headersAlmostDone ch
  | .headersDone => p.headersDone ch
  | .chunkSizeStart =>
    match unhex ch with
    | none => p.error .invalidChunkSize
    | some digit => ⟨{ p with contentLength := digit.toUInt64, state := .chunkSize }, [], .next⟩
  | .chunkSize => p.chunkSize ch
  | .chunkParameters =>
    if ch = cr then ⟨p.goto .chunkSizeAlmostDone, [], .next⟩ else ⟨p, [], .next⟩
  | .chunkSizeAlmostDone => p.chunkSizeAlmostDone ch
  | .chunkDataAlmostDone =>
    p.strictCheck (ch ≠ cr) ⟨p.goto .chunkDataDone, [.data .body], .next⟩
  | .chunkDataDone =>
    p.strictCheck (ch ≠ lf)
      ⟨{ p with nread := 0, state := .chunkSizeStart }, [.notify .chunkComplete], .next⟩
  | .messageDone => p.messageDone
  -- these have loops
  | .headerField | .headerValue | .bodyIdentity | .bodyIdentityEof | .chunkData => ⟨p, [], .next⟩

/-! ## The loops -/

/-- `COUNT_HEADER_SIZE`. The counter is a `uint32_t`. -/
def countHeaderSize (p : Parser) (v : ℕ) : Parser :=
  let nread := (p.nread + v) % 2 ^ 32
  { p with
    nread := nread
    httpErrno := if maxHeaderSize < nread then .headerOverflow else p.httpErrno }

/-- A byte of a head is counted. -/
def countByte (p : Parser) : Parser :=
  if p.state.parsingHeader then p.countHeaderSize 1 else p

/-- The inner loop of `s_header_field` for a name that nothing is looked for in: at most `n` bytes
of it are passed. -/
def skipTokens : ℕ → List UInt8 → List UInt8
  | 0, rest => rest
  | _ + 1, [] => []
  | n + 1, ch :: rest => if token ch = 0 then ch :: rest else skipTokens n rest

/-- The loop of `s_header_field`: the parser behind it, and the bytes from where it stops. -/
def fieldLoop : ℕ → Parser → List UInt8 → Parser × List UInt8
  | 0, p, rest => (p, rest)
  | _ + 1, p, [] => (p, [])
  | fuel + 1, p, ch :: rest =>
    if token ch = 0 then (p, ch :: rest)
    else if p.headerState = .general then fieldLoop fuel p (skipTokens (maxHeaderSize - 1) rest)
    else fieldLoop fuel (p.matchField (token ch)) rest

/-- The inner loop of `s_header_value` for a value that nothing is looked for in: at most `n` bytes
of it are passed. It stops at the end of a line, or at a byte that may not stand there. -/
def skipValue (lenient : Bool) : ℕ → List UInt8 → List UInt8
  | 0, rest => rest
  | _ + 1, [] => []
  | n + 1, ch :: rest =>
    if ch = cr ∨ ch = lf ∨ (!lenient ∧ !isHeaderChar ch) then ch :: rest
    else skipValue lenient n rest

/-- The loop of `s_header_value`: the parser behind it, and the bytes from where it stops. At a
value that is no length, and at a byte that may not stand there, the error is set. -/
def valueLoop : ℕ → Parser → List UInt8 → Parser × List UInt8
  | 0, p, rest => (p, rest)
  | _ + 1, p, [] => (p, [])
  | fuel + 1, p, ch :: rest =>
    if ch = cr ∨ ch = lf then (p, ch :: rest)
    else if !p.lenientHttpHeaders ∧ !isHeaderChar ch then
      ({ p with httpErrno := .invalidHeaderToken }, ch :: rest)
    else if p.headerState = .general then
      match skipValue p.lenientHttpHeaders maxHeaderSize (ch :: rest) with
      | [] => (p, [])
      | ch' :: rest' =>
        -- the inner loop has gone over `max_header_size` bytes, and the outer one goes over this
        if rest.length = maxHeaderSize + rest'.length then valueLoop fuel p rest'
        else if ch' = cr ∨ ch' = lf then valueLoop fuel p (ch' :: rest')
        else ({ p with httpErrno := .invalidHeaderToken }, ch' :: rest')
    else match p.matchValue ch with
      | none => (p.noLength, ch :: rest)
      | some q => valueLoop fuel q rest

/-! ## A call -/

/-- The variables of `http_parser_execute`. -/
structure Exec where
  parser : Parser
  /-- `p - data`. -/
  pos : ℕ := 0
  marks : Kind → Option ℕ := fun _ ↦ none
  /-- The calls so far, each with the number that is returned if it refuses. -/
  calls : List (ℕ × Call) := []

/-- What is called, and with which status code. -/
def tag (p : Parser) (kind : Kind) : Kind × ℕ :=
  (kind, if kind = .status then p.statusCode else 0)

namespace Exec

variable (data : List UInt8) (x : Exec)

/-- `MARK`. -/
def mark (kind : Kind) : Exec :=
  match x.marks kind with
  | none => { x with marks := Function.update x.marks kind (some x.pos) }
  | some _ => x

/-- `CALLBACK_DATA_`, with the bytes from the mark up to `until`. -/
def callbackData (kind : Kind) (upTo er : ℕ) : Exec :=
  match x.marks kind with
  | none => x
  | some m => { x with
      marks := Function.update x.marks kind none
      calls := x.calls ++ [(er, .data (x.parser.tag kind) ((data.take upTo).drop m))] }

/-- `CALLBACK_NOTIFY_`. -/
def callbackNotify (note : Note) (er : ℕ) : Exec :=
  { x with calls := x.calls ++ [(er, .notify note)] }

/-- What the macro for a mark or a callback does. -/
def op : Op → Exec
  | .mark kind => x.mark kind
  | .data kind => x.callbackData data kind x.pos (x.pos + 1)
  | .dataNoadvance kind => x.callbackData data kind x.pos x.pos
  | .dataThrough kind => x.callbackData data kind (x.pos + 1) x.pos
  | .notify note => x.callbackNotify note (x.pos + 1)
  | .notifyNoadvance note => x.callbackNotify note x.pos

/-- The code of a state has been executed: the variables behind it, and the number returned if it
does not go on. -/
def finish (s : Step) : Exec × Option ℕ :=
  let x := s.ops.foldl (op data) { x with parser := s.parser }
  match s.out with
  | .next => ({ x with pos := x.pos + 1 }, none)
  | .exit => (x, some (x.pos + 1))
  | .error => (x, some x.pos)

/-- The parser has got stuck at this place, or not. -/
def counted (s : Step) : Exec × Option ℕ :=
  if x.parser.httpErrno ≠ .ok then (x, some x.pos) else x.finish data s

/-- `s_header_field`. -/
def headerField : Exec × Option ℕ :=
  let rest := data.drop x.pos
  let r := fieldLoop rest.length x.parser rest
  match r.2 with
  | [] =>
    let moved := rest.length - 1
    let p := r.1.countHeaderSize moved
    { x with parser := p, pos := x.pos + moved }.counted data ⟨p, [], .next⟩
  | ch :: left =>
    let moved := rest.length - (ch :: left).length
    let p := r.1.countHeaderSize moved
    { x with parser := p, pos := x.pos + moved }.counted data <|
      if ch = ':'.toUInt8 then ⟨p.goto .headerValueDiscardWs, [.data .headerField], .next⟩
      else p.error .invalidHeaderToken

/-- `s_header_value`. -/
def headerValue : Exec × Option ℕ :=
  let rest := data.drop x.pos
  let r := valueLoop rest.length x.parser rest
  match r.2 with
  | [] =>
    let moved := rest.length - 1
    let p := r.1.countHeaderSize moved
    { x with parser := p, pos := x.pos + moved }.counted data ⟨p, [], .next⟩
  | ch :: left =>
    let moved := rest.length - (ch :: left).length
    let y := { x with parser := r.1, pos := x.pos + moved }
    -- what has been seen of the value is kept in a variable of its own, and lost at some errors
    let forget (p : Parser) : Parser := { p with headerState := x.parser.headerState }
    if r.1.httpErrno = .invalidHeaderToken then ({ y with parser := forget r.1 }, some y.pos)
    else if r.1.httpErrno ≠ .ok then (y, some y.pos)
    else if ch = cr then
      -- the call is made before the bytes are counted
      let y := { y with parser := r.1.goto .headerAlmostDone }.callbackData data .headerValue y.pos
        (y.pos + 1)
      let p := y.parser.countHeaderSize moved
      { y with parser := p }.counted data ⟨p, [], .next⟩
    else
      let p := (r.1.goto .headerAlmostDone).countHeaderSize moved
      if p.httpErrno ≠ .ok then ({ y with parser := forget p }, some y.pos)
      else
        { y with parser := p }.finish data
          ((p.headerAlmostDone ch).after [.dataNoadvance .headerValue])

/-- `s_body_identity` and `s_chunk_data`, with what is done when all of it has been seen. -/
def body (done : Parser → Step) : Exec × Option ℕ :=
  let toRead := min x.parser.contentLength.toNat (data.length - x.pos)
  let p := { x.parser with contentLength := x.parser.contentLength - UInt64.ofNat toRead }
  let y := { (x.mark .body) with parser := p, pos := x.pos + toRead - 1 }
  y.finish data (if p.contentLength = 0 then done p else ⟨p, [], .next⟩)

/-- The code of the state, for one byte, or for as many as it goes over. -/
def switch (ch : UInt8) : Exec × Option ℕ :=
  match x.parser.state with
  | .headerField => x.headerField data
  | .headerValue => x.headerValue data
  | .bodyIdentity =>
    x.body data fun p ↦ ((p.goto .messageDone).messageDone).after [.dataThrough .body]
  | .chunkData => x.body data fun p ↦ ⟨p.goto .chunkDataAlmostDone, [], .next⟩
  | .bodyIdentityEof =>
    { (x.mark .body) with pos := data.length - 1 }.finish data ⟨x.parser, [], .next⟩
  | _ => x.finish data (x.parser.step ch)

/-- The loop, once. -/
def round (ch : UInt8) : Exec × Option ℕ :=
  let x := { x with parser := x.parser.countByte }
  if x.parser.httpErrno ≠ .ok then (x, some x.pos) else x.switch data ch

/-- The calls for the marks that are left when the bytes have run out. -/
def leftover : Exec :=
  [Kind.headerField, .headerValue, .url, .body, .status].foldl
    (fun x kind ↦ x.callbackData data kind x.pos x.pos) x

/-- The loop over the bytes. -/
def loop : ℕ → Exec → Exec × ℕ
  | 0, x => (x, x.pos)
  | fuel + 1, x =>
    match data[x.pos]? with
    | none => (x.leftover data, data.length)
    | some ch =>
      match x.round data ch with
      | (x, none) => loop fuel x
      | (x, some n) => (x, n)

end Exec

/-- The mark that a state begins with. -/
def State.mark : State → Option Kind
  | .headerField => some .headerField
  | .headerValue => some .headerValue
  | .reqPath | .reqSchema | .reqSchemaSlash | .reqSchemaSlashSlash | .reqServerStart | .reqServer
  | .reqServerWithAt | .reqQueryStringStart | .reqQueryString | .reqFragmentStart | .reqFragment =>
    some .url
  | .resStatus => some .status
  | _ => none

/-- What `http_parser_execute` leaves and returns. -/
structure Result where
  parser : Parser
  calls : List (ℕ × Call) := []
  parsed : ℕ
  deriving DecidableEq, Repr

/-- `http_parser_execute`. -/
def execute (p : Parser) (data : List UInt8) : Result :=
  if p.httpErrno ≠ .ok then ⟨p, [], 0⟩
  else if data = [] then
    match p.state with
    | .bodyIdentityEof => ⟨p, [(0, .notify .messageComplete)], 0⟩
    | .dead | .startReqOrRes | .startRes | .startReq => ⟨p, [], 0⟩
    | _ => ⟨{ p with httpErrno := .invalidEofState }, [], 1⟩
  else
    let x : Exec := ⟨p, 0, fun kind ↦ if p.state.mark = some kind then some 0 else none, []⟩
    let r := x.loop data (data.length + 1)
    ⟨r.1.parser, r.1.calls, r.2⟩

end Parser

end Knet.Http
