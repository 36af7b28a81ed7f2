import Knet.Lib.HttpMessage
import Knet.Lib.Pieces
import Mathlib.Logic.Function.Basic

/-!
# The vendored HTTP parser: its data

`http_parser` is a state machine over bytes. This module has its states, its tables, and the object
itself. The tests of strict mode, which is the default, are part of the machine.

Flags are fields of their own here, and the numbers that only count within one line are natural
numbers.
-/

namespace Knet.Http

namespace Parser

open HttpMessage (isTchar lower)

/-! ## Enumerations -/

/-- `http_parser_type`. -/
inductive MessageType
  | httpRequest
  | httpResponse
  | httpBoth
  deriving DecidableEq, Repr

/-- `state`, in the order of the enumeration. -/
inductive State
  | dead
  | startReqOrRes
  | resOrRespH
  | startRes
  | resH
  | resHT
  | resHTT
  | resHTTP
  | resHttpMajor
  | resHttpDot
  | resHttpMinor
  | resHttpEnd
  | resFirstStatusCode
  | resStatusCode
  | resStatusStart
  | resStatus
  | resLineAlmostDone
  | startReq
  | reqMethod
  | reqSpacesBeforeUrl
  | reqSchema
  | reqSchemaSlash
  | reqSchemaSlashSlash
  | reqServerStart
  | reqServer
  | reqServerWithAt
  | reqPath
  | reqQueryStringStart
  | reqQueryString
  | reqFragmentStart
  | reqFragment
  | reqHttpStart
  | reqHttpH
  | reqHttpHT
  | reqHttpHTT
  | reqHttpHTTP
  | reqHttpI
  | reqHttpIC
  | reqHttpMajor
  | reqHttpDot
  | reqHttpMinor
  | reqHttpEnd
  | reqLineAlmostDone
  | headerFieldStart
  | headerField
  | headerValueDiscardWs
  | headerValueDiscardWsAlmostDone
  | headerValueDiscardLws
  | headerValueStart
  | headerValue
  | headerValueLws
  | headerAlmostDone
  | chunkSizeStart
  | chunkSize
  | chunkParameters
  | chunkSizeAlmostDone
  | headersAlmostDone
  | headersDone
  | chunkData
  | chunkDataAlmostDone
  | chunkDataDone
  | bodyIdentity
  | bodyIdentityEof
  | messageDone
  deriving DecidableEq, Repr

/-- `PARSING_HEADER`. -/
def State.parsingHeader : State → Bool
  | .chunkData | .chunkDataAlmostDone | .chunkDataDone | .bodyIdentity | .bodyIdentityEof
  | .messageDone => false
  | _ => true

/-- `header_states`. -/
inductive HeaderState
  | general
  | c
  | co
  | con
  | matchingConnection
  | matchingProxyConnection
  | matchingContentLength
  | matchingTransferEncoding
  | matchingUpgrade
  | connection
  | contentLength
  | contentLengthNum
  | contentLengthWs
  | transferEncoding
  | upgrade
  | matchingTransferEncodingChunked
  | matchingConnectionTokenStart
  | matchingConnectionKeepAlive
  | matchingConnectionClose
  | matchingConnectionUpgrade
  | matchingConnectionToken
  | transferEncodingChunked
  | connectionKeepAlive
  | connectionClose
  | connectionUpgrade
  deriving DecidableEq, Repr

/-- `http_errno`, as far as it is set by the parser itself. -/
inductive Errno
  | ok
  | invalidEofState
  | headerOverflow
  | closedConnection
  | invalidVersion
  | invalidStatus
  | invalidMethod
  | invalidUrl
  | lfExpected
  | invalidHeaderToken
  | invalidContentLength
  | unexpectedContentLength
  | invalidChunkSize
  | invalidConstant
  | strict
  deriving DecidableEq, Repr

/-- `http_method`. -/
inductive Method
  | delete
  | get
  | head
  | post
  | put
  | connect
  | options
  | trace
  | copy
  | lock
  | mkcol
  | move
  | propfind
  | proppatch
  | search
  | unlock
  | bind
  | rebind
  | unbind
  | acl
  | report
  | mkactivity
  | checkout
  | merge
  | msearch
  | notify
  | subscribe
  | unsubscribe
  | patch
  | purge
  | mkcalendar
  | link
  | unlink
  | source
  deriving DecidableEq, Repr

/-- `method_strings`. -/
def Method.string : Method → String
  | .delete => "DELETE"
  | .get => "GET"
  | .head => "HEAD"
  | .post => "POST"
  | .put => "PUT"
  | .connect => "CONNECT"
  | .options => "OPTIONS"
  | .trace => "TRACE"
  | .copy => "COPY"
  | .lock => "LOCK"
  | .mkcol => "MKCOL"
  | .move => "MOVE"
  | .propfind => "PROPFIND"
  | .proppatch => "PROPPATCH"
  | .search => "SEARCH"
  | .unlock => "UNLOCK"
  | .bind => "BIND"
  | .rebind => "REBIND"
  | .unbind => "UNBIND"
  | .acl => "ACL"
  | .report => "REPORT"
  | .mkactivity => "MKACTIVITY"
  | .checkout => "CHECKOUT"
  | .merge => "MERGE"
  | .msearch => "M-SEARCH"
  | .notify => "NOTIFY"
  | .subscribe => "SUBSCRIBE"
  | .unsubscribe => "UNSUBSCRIBE"
  | .patch => "PATCH"
  | .purge => "PURGE"
  | .mkcalendar => "MKCALENDAR"
  | .link => "LINK"
  | .unlink => "UNLINK"
  | .source => "SOURCE"

/-- `flags`. -/
structure Flags where
  chunked : Bool := false
  connectionKeepAlive : Bool := false
  connectionClose : Bool := false
  connectionUpgrade : Bool := false
  trailing : Bool := false
  upgrade : Bool := false
  skipbody : Bool := false
  contentLength : Bool := false
  deriving DecidableEq, Repr

/-! ## Characters -/

/-- `CR`. -/
abbrev cr : UInt8 := 13

/-- `LF`. -/
abbrev lf : UInt8 := 10

/-- `LOWER`, which sets a bit of any character. -/
def toLower (c : UInt8) : UInt8 := c ||| 0x20

/-- `IS_ALPHA`. -/
def isAlpha (c : UInt8) : Bool := 'a'.toUInt8 ≤ toLower c && toLower c ≤ 'z'.toUInt8

/-- `IS_NUMBER`. -/
def isNumber (c : UInt8) : Bool := '0'.toUInt8 ≤ c && c ≤ '9'.toUInt8

/-- `IS_ALPHANUM`. -/
def isAlphanum (c : UInt8) : Bool := isAlpha c || isNumber c

/-- `IS_MARK`. -/
def isMark (c : UInt8) : Bool := c ∈ "-_.!~*'()".toList.map Char.toUInt8

/-- `IS_USERINFO_CHAR`. -/
def isUserinfoChar (c : UInt8) : Bool :=
  isAlphanum c || isMark c || c ∈ "%;:&=+$,".toList.map Char.toUInt8

/-- `IS_URL_CHAR`: the bits of `normal_url_char`, of which there are none from 128 on. -/
def isUrlChar (c : UInt8) : Bool :=
  32 < c && c < 127 && c != '#'.toUInt8 && c != '?'.toUInt8

/-- `IS_HEADER_CHAR`. -/
def isHeaderChar (c : UInt8) : Bool := c == cr || c == lf || c == 9 || (31 < c && c != 127)

/-- `TOKEN`: the entry of `tokens`, and zero for what is no part of a token. -/
def token (c : UInt8) : UInt8 := if isTchar c then lower c else 0

/-- `unhex`, with `none` for `-1`. The table has entries for the first 128 characters only, so that
the rest are zeros. -/
def unhex (c : UInt8) : Option UInt8 :=
  if isNumber c then some (c - '0'.toUInt8)
  else if 'a'.toUInt8 ≤ c && c ≤ 'f'.toUInt8 then some (c - 'a'.toUInt8 + 10)
  else if 'A'.toUInt8 ≤ c && c ≤ 'F'.toUInt8 then some (c - 'A'.toUInt8 + 10)
  else if c < 128 then none
  else some 0

/-- The characters of a text, with the terminator behind them: `text[i]`. -/
def charAt (text : String) (i : ℕ) : UInt8 := (text.toList.map Char.toUInt8).getD i 0

/-! ## Calls -/

/-- A callback that is given bytes, and the mark that belongs to it. -/
inductive Kind
  | url
  | status
  | headerField
  | headerValue
  | body
  deriving DecidableEq, Repr

/-- A callback that is given none. -/
inductive Note
  | messageBegin
  | headersComplete
  | messageComplete
  | chunkHeader
  | chunkComplete
  deriving DecidableEq, Repr

/-- A call through `http_parser_settings`: which callback, and the bytes it is given. With the
reason of a response comes the status code that `on_status` reads from the parser. -/
abbrev Call := Pieces.Report (Kind × ℕ) UInt8 Note

/-- The letters of a text. -/
def letters (text : String) : List UInt8 := text.toList.map Char.toUInt8

end Parser

/-! ## The parser -/

/-- `http_parser`. -/
structure Parser where
  type : Parser.MessageType
  flags : Parser.Flags := {}
  state : Parser.State
  headerState : Parser.HeaderState := .general
  index : ℕ := 0
  lenientHttpHeaders : Bool := false
  nread : ℕ := 0
  contentLength : UInt64 := 0
  httpMajor : ℕ := 0
  httpMinor : ℕ := 0
  statusCode : ℕ := 0
  method : Parser.Method := .delete
  httpErrno : Parser.Errno := .ok
  upgrade : Bool := false
  deriving DecidableEq, Repr

namespace Parser

/-- `http_parser_init`. -/
def init : MessageType → Parser
  | .httpRequest => { type := .httpRequest, state := .startReq }
  | .httpResponse => { type := .httpResponse, state := .startRes }
  | .httpBoth => { type := .httpBoth, state := .startReqOrRes }

/-- `ULLONG_MAX`. -/
def ullongMax : UInt64 := 0xFFFFFFFFFFFFFFFF

/-- `max_header_size`. -/
def maxHeaderSize : ℕ := 80 * 1024

/-- `http_message_needs_eof`. -/
def needsEof (p : Parser) : Bool :=
  if p.type = .httpRequest then false
  else if p.statusCode / 100 = 1 ∨ p.statusCode = 204 ∨ p.statusCode = 304
      ∨ p.flags.skipbody = true then false
  else if p.flags.chunked = true ∨ p.contentLength ≠ ullongMax then false
  else true

/-- `http_should_keep_alive`. -/
def shouldKeepAlive (p : Parser) : Bool :=
  if 0 < p.httpMajor ∧ 0 < p.httpMinor then
    if p.flags.connectionClose then false else !p.needsEof
  else if p.flags.connectionKeepAlive then !p.needsEof
  else false

/-- `start_state`. -/
def startState (p : Parser) : State := if p.type = .httpRequest then .startReq else .startRes

/-- `NEW_MESSAGE`. -/
def newMessage (p : Parser) : State := if p.shouldKeepAlive then p.startState else .dead

end Parser

end Knet.Http
