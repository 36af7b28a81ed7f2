import Knet.Http.Decoder
import Knet.Tcp.Framing
import Knet.Tls.Socket
import Knet.WebSocket.Frame

/-!
# The upgrade request

Before a connection speaks websocket it speaks HTTP: the server waits for a request to upgrade, the
client for the response. `WSockSslConnection::handle_package` asks `is_websocket` and, while it is
false, takes the length of the package from the HTTP parser. `WSockConnection::handle_package` is a
copy of it without that question. It reads a frame header from whatever arrives, and in a text the
second byte is a length: `GET` announces 71 bytes, `HTTP` 86.

`samePackages_iff` says that the two agree on all buffers exactly once the connection has been
upgraded, and on the head of an HTTP message exactly if it is as long as its second byte says.
-/

namespace Knet.WebSocket

open Knet.Tcp Knet.Http Bytes

/-! ## The two classes -/

/-- What `handle_package` asks a connection for. -/
structure WSock where
  isWebsocket : Bool := false
  isPassive : Bool
  deriving DecidableEq, Repr

/-- The message that a connection waits for until it is upgraded. -/
def WSock.awaits (c : WSock) : HttpParserType := if c.isPassive then .httpRequest else .httpResponse

/-- `WSockConnection::handle_package`, which asks for neither. -/
def WSockConnection.handlePackage (_ : WSock) (d : List UInt8) : ℤ := WebSocket.handlePackage d

/-- `WSockSslConnection::handle_package`. Its `get_message_length` is that of `WSockConnection`. -/
def WSockSslConnection.handlePackage (p : HttpParser) (c : WSock) (d : List UInt8) : ℤ :=
  if c.isWebsocket then
    if d.length < getMessageLength d then 0 else toInt32 (getMessageLength d)
  else if c.isPassive then toInt32 (parseRequest p d).2
  else toInt32 (parseResponse p d).2

/-- The socket of a `WSockConnection` in this state. -/
def plainSocket (c : WSock) : Config := framed Tcp.kReadBufferSize (WSockConnection.handlePackage c)

/-- The socket of a `WSockSslConnection` in this state. -/
def sslSocket (p : HttpParser) (c : WSock) : Config :=
  framed Tls.kReadBufferSize (WSockSslConnection.handlePackage p c)

/-! ## Heads -/

/-- A request to upgrade. -/
def upgradeRequest : List UInt8 :=
  ofString "GET / HTTP/1.1\r\nUpgrade: websocket\r\nConnection: Upgrade\r\n"
    ++ ofString "Sec-WebSocket-Key: dGhlIHNhbXBsZSBub25jZQ==\r\n\r\n"

/-- The response to it. -/
def upgradeResponse : List UInt8 :=
  ofString "HTTP/1.1 101 Switching Protocols\r\nUpgrade: websocket\r\nConnection: Upgrade\r\n"
    ++ ofString "Sec-WebSocket-Accept: s3pPLMBiTxaQ9kYGzzhZRbK+xOo=\r\n\r\n"

/-- What the parser is taken to do with a message that ends the HTTP part of a connection. -/
structure UpgradeHeads (p : HttpParser) where
  /-- The bytes of such a message, up to and with the empty line. -/
  IsHead : HttpParserType → List UInt8 → Prop
  /-- Its length is what is parsed, whatever follows it. -/
  parse_append : ∀ {kind h}, IsHead kind h → ∀ tail, (parse p kind (h ++ tail)).2 = h.length
  /-- It is text. -/
  text : ∀ {kind h}, IsHead kind h → h.getD 1 0 < 126
  /-- No start line and two line ends are shorter. -/
  le_length : ∀ {kind h}, IsHead kind h → 16 ≤ h.length
  /-- `HTTP_MAX_HEADER_SIZE`. -/
  length_le : ∀ {kind h}, IsHead kind h → h.length ≤ 80 * 1024
  request : IsHead .httpRequest upgradeRequest
  response : IsHead .httpResponse upgradeResponse

/-- A socket that waits for a package, and reads `h` in one go, hands on `h`. -/
def HandsOn (cfg : Config) (h : List UInt8) : Prop :=
  ∀ s, TcpSocket.Holding cfg s [] →
    delivered (TcpSocket.readNext cfg s [] h).log = delivered s.log ++ [h]

/-- **The same packages.** The two classes answer alike, and to each of them the head of an HTTP
message is one package, which is handed on as a whole. -/
structure SamePackages (p : HttpParser) (u : UpgradeHeads p) (c : WSock) : Prop where
  same : ∀ d, WSockConnection.handlePackage c d = WSockSslConnection.handlePackage p c d
  whole : c.isWebsocket = false → ∀ h, u.IsHead c.awaits h → ∀ tail,
    WSockConnection.handlePackage c (h ++ tail) = h.length
      ∧ WSockSslConnection.handlePackage p c (h ++ tail) = h.length
  handed : c.isWebsocket = false → ∀ h, u.IsHead c.awaits h →
    HandsOn (plainSocket c) h ∧ HandsOn (sslSocket p c) h

/-! ## A text read as a frame -/

theorem mark_of_lt {b : UInt8} (h : b < 126) : payloadMark b = b.toNat ∧ isMasked b = false := by
  have hall : ∀ n < 126, payloadMark (UInt8.ofNat n) = n ∧ isMasked (UInt8.ofNat n) = false := by
    decide
  have hb := hall b.toNat (UInt8.lt_iff_toNat_lt.mp h)
  rwa [UInt8.ofNat_toNat] at hb

section Heads

variable {p : HttpParser} {u : UpgradeHeads p} {c : WSock} {h : List UInt8}

theorem getMessageLength_head {kind : HttpParserType} (hh : u.IsHead kind h) (tail : List UInt8) :
    getMessageLength (h ++ tail) = 2 + (h.getD 1 0).toNat ∧ (h.getD 1 0).toNat < 126 := by
  have hlen := u.le_length hh
  match h, hlen with
  | a :: b :: rest, hlen =>
    have hb : b < 126 := u.text hh
    obtain ⟨hmark, hmask⟩ := mark_of_lt hb
    have hlt : b.toNat < 126 := UInt8.lt_iff_toNat_lt.mp hb
    have hlong : 16 ≤ (a :: b :: (rest ++ tail)).length := by
      rw [List.length_cons, List.length_cons] at hlen ⊢
      rw [List.length_append]
      omega
    refine ⟨?_, hlt⟩
    rw [List.cons_append, List.cons_append, getMessageLength_cons hlong, hmark, if_pos hlt,
      maskSize, hmask]
    rfl

/-- The plain connection takes the head for one package if its second byte happens to say so. -/
theorem plain_head_iff {kind : HttpParserType} (hh : u.IsHead kind h) (tail : List UInt8) :
    WSockConnection.handlePackage c (h ++ tail) = h.length
      ↔ h.length = 2 + (h.getD 1 0).toNat := by
  obtain ⟨hlength, hlt⟩ := getMessageLength_head hh tail
  have hpos := u.le_length hh
  rw [WSockConnection.handlePackage, WebSocket.handlePackage, hlength, toInt32_of_lt (by omega)]
  split_ifs with hover
  · rw [List.length_append] at hover
    omega
  · omega

theorem ssl_head (hws : c.isWebsocket = false) (hh : u.IsHead c.awaits h) (tail : List UInt8) :
    WSockSslConnection.handlePackage p c (h ++ tail) = h.length := by
  have hle := u.length_le hh
  have hparse := u.parse_append hh tail
  rw [WSockSslConnection.handlePackage, if_neg (by rw [hws]; exact Bool.false_ne_true)]
  cases hpassive : c.isPassive with
  | true =>
    rw [WSock.awaits, hpassive, if_pos rfl] at hparse
    rw [if_pos rfl, parseRequest, hparse, toInt32_of_lt (by omega)]
  | false =>
    rw [WSock.awaits, hpassive, if_neg Bool.false_ne_true] at hparse
    rw [if_neg Bool.false_ne_true, parseResponse, hparse, toInt32_of_lt (by omega)]

/-- A read is handed on as it is if the answer of `handle_package` is its length. -/
theorem handsOn_of_eq {K : ℕ} {f : List UInt8 → ℤ} (hpos : 0 < h.length) (hf : f h = h.length) :
    HandsOn (framed K f) h := by
  intro s hs
  have hlog := (readNext_exact hs hpos hf).2
  rw [hlog, delivered_append]
  rfl

/-- If the answer is smaller, nothing is handed on, or a part comes first. -/
theorem eq_length_of_handsOn {K n : ℕ} {f : List UInt8 → ℤ} (hpos : 0 < h.length)
    (hroom : h.length < K ∨ 0 < n) (hK : 0 < K) (hf : f h = n) (hle : n ≤ h.length)
    (hhands : HandsOn (framed K f) h) : n = h.length := by
  have hholding : TcpSocket.Holding (framed K f) (accepted.initRead (framed K f)) [] :=
    TcpSocket.holding_accepted hK
  have hdelivered := hhands _ hholding
  rcases Nat.eq_zero_or_pos n with rfl | hn
  · have hroom : h.length < K := by omega
    have hlog := (readNext_incomplete hholding hpos hroom (.inl (Int.le_of_eq hf))
      (by rw [List.nil_append, hf]; exact Int.natCast_nonneg K)).2
    rw [hlog, delivered_append, List.append_right_inj] at hdelivered
    exact absurd hdelivered.symm (List.cons_ne_nil _ _)
  · rcases Nat.lt_or_eq_of_le hle with hlt | heq
    · obtain ⟨given, log, hlog, -⟩ := readNext_beyond hholding hf hn hlt
      rw [hlog, delivered_append, List.append_right_inj] at hdelivered
      have hpart : h.take n = h := (List.cons.inj hdelivered).1
      have hlen := congrArg List.length hpart
      rw [List.length_take] at hlen
      omega
    · exact heq

/-- A read of a head on the plain connection is handed on as it is if its second byte happens to say
so. -/
theorem plain_handsOn_iff {kind : HttpParserType} (hh : u.IsHead kind h) :
    HandsOn (plainSocket c) h ↔ h.length = 2 + (h.getD 1 0).toNat := by
  have hpos := u.le_length hh
  have hiff := plain_head_iff (c := c) hh []
  obtain ⟨hlength, hlt⟩ := getMessageLength_head hh []
  rw [List.append_nil] at hiff hlength
  constructor
  · intro hhands
    have hK : 128 < Tcp.kReadBufferSize := by decide
    rcases Nat.lt_or_ge h.length (2 + (h.getD 1 0).toNat) with hshort | hlong
    · have hzero : WSockConnection.handlePackage c h = (0 : ℕ) := by
        rw [WSockConnection.handlePackage, WebSocket.handlePackage, hlength, if_pos hshort]
        rfl
      have := eq_length_of_handsOn (by omega) (.inl (by omega)) (Nat.zero_lt_of_lt hK) hzero
        (Nat.zero_le _) hhands
      omega
    · have hanswer : WSockConnection.handlePackage c h = (2 + (h.getD 1 0).toNat : ℕ) := by
        rw [WSockConnection.handlePackage, WebSocket.handlePackage, hlength,
          if_neg (by omega), toInt32_of_lt (by omega)]
      exact (eq_length_of_handsOn (by omega) (.inr (by omega)) (Nat.zero_lt_of_lt hK) hanswer hlong
        hhands).symm
  · intro heq
    exact handsOn_of_eq (by omega) (hiff.mpr heq)

/-- On the TLS connection it is handed on as it is anyway. -/
theorem ssl_handsOn (hws : c.isWebsocket = false) (hh : u.IsHead c.awaits h) :
    HandsOn (sslSocket p c) h := by
  have hpos := u.le_length hh
  have hanswer := ssl_head hws hh []
  rw [List.append_nil] at hanswer
  exact handsOn_of_eq (by omega) hanswer

end Heads

/-! ## The exact condition -/

section Exact

variable {p : HttpParser} (u : UpgradeHeads p) (c : WSock)

/-- There is a head that does not have the length its second byte announces, for either role. -/
theorem exists_head_ne : ∃ h, u.IsHead c.awaits h ∧ h.length ≠ 2 + (h.getD 1 0).toNat := by
  rw [WSock.awaits]
  split_ifs
  · exact ⟨upgradeRequest, u.request, by decide +kernel⟩
  · exact ⟨upgradeResponse, u.response, by decide +kernel⟩

/-- **The exact condition.** The plain and the TLS connection cut the stream into the same packages,
and take the head of an HTTP message for one, exactly if they have been upgraded. Before that they
do so for a head exactly if its length is its second byte and two. -/
theorem samePackages_iff :
    (SamePackages p u c ↔ c.isWebsocket = true) ∧
    (c.isWebsocket = false → ∀ h, u.IsHead c.awaits h →
      (∀ tail, WSockSslConnection.handlePackage p c (h ++ tail) = h.length) ∧
      HandsOn (sslSocket p c) h ∧
      (∀ tail, WSockConnection.handlePackage c (h ++ tail)
          = WSockSslConnection.handlePackage p c (h ++ tail)
        ↔ h.length = 2 + (h.getD 1 0).toNat) ∧
      (HandsOn (plainSocket c) h ↔ h.length = 2 + (h.getD 1 0).toNat)) := by
  refine ⟨⟨?_, ?_⟩, ?_⟩
  · intro hsame
    -- before the upgrade there is a head that the plain connection cuts elsewhere
    refine Bool.of_not_eq_false fun hws ↦ ?_
    obtain ⟨h, hh, hne⟩ := exists_head_ne u c
    have hplain := (hsame.whole hws h hh []).1
    exact hne ((plain_head_iff hh []).mp hplain)
  · intro hws
    refine ⟨fun d ↦ ?_, ?_, ?_⟩
    · rw [WSockSslConnection.handlePackage, if_pos hws]
      rfl
    · intro hnot
      exact absurd (hnot.symm.trans hws) Bool.false_ne_true
    · intro hnot
      exact absurd (hnot.symm.trans hws) Bool.false_ne_true
  · intro hws h hh
    refine ⟨ssl_head hws hh, ssl_handsOn hws hh, fun tail ↦ ?_, plain_handsOn_iff hh⟩
    rw [ssl_head hws hh tail]
    exact plain_head_iff hh tail

end Exact

/-! ### A request that is cut -/

/-- What the parser reports for the two messages. -/
def upgradeCalls : HttpParserType → List Callback
  | .httpRequest =>
    [.onUrl (ofString "/"),
      .onHeaderField (ofString "Upgrade"), .onHeaderValue (ofString "websocket"),
      .onHeaderField (ofString "Connection"), .onHeaderValue (ofString "Upgrade"),
      .onHeaderField (ofString "Sec-WebSocket-Key"),
      .onHeaderValue (ofString "dGhlIHNhbXBsZSBub25jZQ=="),
      .onHeadersComplete]
  | .httpResponse =>
    [.onStatus (ofString "Switching Protocols") 101,
      .onHeaderField (ofString "Upgrade"), .onHeaderValue (ofString "websocket"),
      .onHeaderField (ofString "Connection"), .onHeaderValue (ofString "Upgrade"),
      .onHeaderField (ofString "Sec-WebSocket-Accept"),
      .onHeaderValue (ofString "s3pPLMBiTxaQ9kYGzzhZRbK+xOo="),
      .onHeadersComplete]

/-- The two messages. -/
def upgradeHead : HttpParserType → List UInt8
  | .httpRequest => upgradeRequest
  | .httpResponse => upgradeResponse

/-- A parser that knows them. -/
def upgradeParser : HttpParser where
  execute kind data :=
    if upgradeHead kind <+: data then
      ((upgradeCalls kind).map fun call ↦ ((upgradeHead kind).length, call),
        (upgradeHead kind).length)
    else ([], data.length)
  parseUrl url := some ⟨some url, none⟩

/-- To it they are the messages that end the HTTP part. -/
def upgradeHeads : UpgradeHeads upgradeParser where
  IsHead kind h := h = upgradeHead kind
  parse_append := by
    rintro kind _ rfl tail
    rw [parse, upgradeParser]
    simp only [if_pos (List.prefix_append (upgradeHead kind) tail)]
    cases kind <;> decide +kernel
  text := by
    rintro kind _ rfl
    cases kind <;> decide +kernel
  le_length := by
    rintro kind _ rfl
    cases kind <;> decide +kernel
  length_le := by
    rintro kind _ rfl
    cases kind <;> decide +kernel
  request := rfl
  response := rfl

/-- **A request to upgrade of 104 bytes is cut after 71** by the plain server. -/
theorem not_samePackages_server : ¬SamePackages upgradeParser upgradeHeads ⟨false, true⟩ := by
  intro h
  have hplain : WSockConnection.handlePackage ⟨false, true⟩ upgradeRequest = 71 := by decide +kernel
  have hssl : WSockSslConnection.handlePackage upgradeParser ⟨false, true⟩ upgradeRequest
      = 104 := by
    decide +kernel
  have hsame := h.same upgradeRequest
  rw [hplain, hssl] at hsame
  omega

end Knet.WebSocket
