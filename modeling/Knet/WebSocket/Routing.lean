import Knet.Http.Handler
import Knet.Http.HttpUrl

/-!
# HTTP routes on a websocket server

Until it is upgraded, a connection of a `WSockServer` serves HTTP, by the same handlers as an
`HttpConnection` and from a table of the same kind. The two look up different keys: one takes the
path as the decoder has it, the other asks `HttpUrl`, which decodes and normalises it or throws. And
only one of them gives the response a writer. On a websocket server a handler has nobody to write
to, and what it returns is not answered either.

`sameAnswer_iff` says when the two answer alike all the same.
-/

namespace Knet.WebSocket

open Bytes Knet.Tcp Knet.Http

/-! ## The two servers -/

/-- `HttpDecoder::get_header`. -/
def getHeader (d : HttpDecoder) (key : List UInt8) : List UInt8 :=
  ((d.headers.find? fun item ↦ item.1 == key).map Prod.snd).getD []

/-- A table of routes, `HttpRouteMap`. -/
abbrev HttpRouteMap : Type := List UInt8 → Option HttpHandler

/-- The response that a server makes itself. -/
def ownResponse (code : ℕ) : HttpResponse := .new code [] (ofString "txt")

/-- What becomes of a request: the route that is selected, and the socket afterwards. -/
structure Served where
  route : Option (List UInt8)
  sock : TcpSocket

section Servers

variable (p : HttpParser) (routes : HttpRouteMap) (now : DateText)

/-- The factory of a server with these routes, for a connection with the socket `s`. A handler is
given a response with a writer. -/
def httpFactory (s : TcpSocket) : HttpFactory where
  httpRouters path := (routes path).map fun h d ↦ (h.call d).answer now { hasWriter := true } s
  encode code := (ownResponse code).encode now

/-- The route of the handler that was called. -/
def routeOf : List Invocation → Option (List UInt8)
  | [.handler seen] => seen.path
  | _ => none

/-- A connection of the HTTP server with the socket `s` is given the data. -/
def servedByHttp (s : TcpSocket) (data : List UInt8) : Served :=
  let c := HttpConnection.handleData p (httpFactory routes now s) { sock := s } data
  ⟨routeOf c.invoked, c.sock⟩

/-- `WSockConnection::write`. -/
def WSockConnection.write (s : TcpSocket) (rsp : HttpResponse) : TcpSocket :=
  if 200 ≤ rsp.code then (send s (rsp.encode now)).close else send s (rsp.encode now)

/-- What `WSockFactory::handle_data` does with a request that does not ask for an upgrade. When
`path()` throws, the exception leaves it. -/
def WSockFactory.respond (returns : List UInt8 → Bool) (s : TcpSocket) (d : HttpDecoder) : Served :=
  match HttpUrl.path returns d.httpUrl with
  | none => ⟨none, s⟩
  | some path =>
    match routes path with
    | some handler => ⟨some path, ((handler.call d).answer now {} s).sent.foldl send s⟩
    | none => ⟨none, WSockConnection.write now s (ownResponse 404)⟩

/-- `WSockFactory::handle_data` in the state `WSOCK_INIT`, or `none` if an upgrade is asked for. -/
def WSockFactory.handleData (returns : List UInt8 → Bool) (s : TcpSocket) (data : List UInt8) :
    Option Served :=
  if 0 < (parseRequest p data).2 then
    if getHeader (parseRequest p data).1 (ofString "Upgrade") = ofString "websocket" then none
    else some (WSockFactory.respond routes now returns s (parseRequest p data).1)
  else some ⟨none, s⟩

/-- The bytes that were sent between two states of a socket. -/
def sentBetween (s t : TcpSocket) : List UInt8 := (t.appended.drop s.appended.length).flatten

/-- **The same answer.** Both servers select the same route and send the same bytes. -/
def SameAnswer (returns : List UInt8 → Bool) (s : TcpSocket) (data : List UInt8) : Prop :=
  ∃ served, WSockFactory.handleData p routes now returns s data = some served ∧
    (servedByHttp p routes now s data).route = served.route ∧
    sentBetween s (servedByHttp p routes now s data).sock = sentBetween s served.sock

/-- There is no route for the path of the request, nor for the one that `HttpUrl` finds; or they are
one path, and its handler has nothing to say. -/
def Agreed (returns : List UInt8 → Bool) (data : List UInt8) (r : Request) : Prop :=
  (routes (r.path p) = none ∧ ∃ path, HttpUrl.path returns r.url = some path ∧ routes path = none) ∨
    (HttpUrl.path returns r.url = some (r.path p) ∧ ∃ handler, routes (r.path p) = some handler ∧
      (handler.call (parseRequest p data).1).Silent { hasWriter := true })

end Servers

/-- A line of the request asks for an upgrade to websocket. -/
def AsksUpgrade (r : Request) : Prop :=
  ∃ f ∈ r.fields ++ r.trailers, f.name = ofString "Upgrade" ∧ ofString "websocket" ∈ f.parts

/-! ## What is sent -/

section Sending

variable {s : TcpSocket}

/-- On an open socket a message is sent as it is, and the socket stays open. -/
theorem send_open (h : s.isOpen = true) (msg : List UInt8) :
    (send s msg).isOpen = true ∧ (send s msg).appended = s.appended ++ [msg] := by
  rw [send, if_pos h, TcpSocket.doSend, TcpSocket.msend, if_pos h]
  have hmsg : enqueued s.sendBuffer.length [.str msg] = msg := by
    rw [enqueued_cons (by simp), enqueued, ite_self, List.append_nil]
    rfl
  rw [hmsg]
  exact ⟨h, rfl⟩

theorem sends_open (h : s.isOpen = true) (msgs : List (List UInt8)) :
    (msgs.foldl send s).isOpen = true ∧ (msgs.foldl send s).appended = s.appended ++ msgs := by
  induction msgs generalizing s with
  | nil => exact ⟨h, (List.append_nil _).symm⟩
  | cons msg msgs ih =>
    obtain ⟨hopen, happended⟩ := send_open h msg
    obtain ⟨hlast, hall⟩ := ih hopen
    refine ⟨hlast, ?_⟩
    rw [List.foldl_cons, hall, happended, List.append_assoc, List.singleton_append]

theorem appended_close (s : TcpSocket) : s.close.appended = s.appended := by
  rw [TcpSocket.close]
  split_ifs <;> rfl

theorem appended_write (h : s.isOpen = true) (rsp : List UInt8) :
    (Http.write s rsp).appended = s.appended ++ [rsp] := by
  rw [Http.write, appended_close, if_pos h, (send_open h rsp).2]

theorem sentBetween_eq {t : TcpSocket} {msgs : List (List UInt8)}
    (h : t.appended = s.appended ++ msgs) : sentBetween s t = msgs.flatten := by
  rw [sentBetween, h, List.drop_left]

/-- What an HTTP connection sends for a request to this path. -/
def replies (f : HttpFactory) (d : HttpDecoder) (path : List UInt8) : List (List UInt8) :=
  match f.httpRouters path with
  | none => [f.encode 404]
  | some handler => (handler d).sent ++ if (handler d).rst < 0 then [f.encode 501] else []

theorem appended_respond (h : s.isOpen = true) {f : HttpFactory} {d : HttpDecoder}
    {path : List UInt8} (hpath : d.httpPath = some path) :
    (HttpConnection.respond f s d).appended = s.appended ++ replies f d path := by
  rw [HttpConnection.respond, replies, hpath]
  simp only
  cases f.httpRouters path with
  | none => rw [appended_close, appended_write h]
  | some handler =>
    obtain ⟨hopen, happended⟩ := sends_open h (handler d).sent
    simp only [appended_close]
    split_ifs
    · rw [appended_write hopen, happended, List.append_assoc]
    · rw [happended, List.append_nil]

end Sending

/-! ## What is decoded -/

/-- Behind the end of a request the parser reports nothing. -/
def Reports {p : HttpParser} (g : Grammar p) : Prop :=
  ∀ {bytes r}, g.IsRequest bytes r → p.calls .httpRequest bytes = r.calls

section Requests

variable {p : HttpParser} {g : Grammar p}

/-- What the two servers look at. -/
structure Shows (d : HttpDecoder) (path : List UInt8) (r : Request) : Prop where
  httpUrl : d.httpUrl = r.url
  httpPath : d.httpPath = some path
  headers : ∀ header ∈ d.headers, ∃ f ∈ r.fields ++ r.trailers, header ∈ f.entries

theorem parsed_pos (r : Http.Sent g) : 0 < (parseRequest p r.bytes).2 :=
  @HttpConnection.parse_pos p g r [] _ (g.bytes_ne_nil r.wellFormed) (by simp)

theorem shows_parseRequest (hg : Reports g) (r : Http.Sent g) :
    Shows (parseRequest p r.bytes).1 (r.request.path p) r.request := by
  have hcalls := hg r.wellFormed
  rw [parseRequest, Http.parse, hcalls, ← List.append_nil r.request.calls]
  cases hstops : p.stops r.request.url with
  | true =>
    obtain ⟨header, hhead⟩ := r.request.atHead_eq
    rw [Request.collect_stopped hstops, hhead]
    refine ⟨rfl, congrArg some (Request.path_of_stops hstops).symm, ?_⟩
    intro header hheader
    obtain ⟨f, hf, hentry⟩ := List.mem_flatMap.mp hheader
    exact ⟨f, List.mem_append_left _ hf, hentry⟩
  | false =>
    obtain ⟨header, query, hcollect⟩ := @Request.collect_goesOn p r.request [] hstops
    rw [hcollect]
    refine ⟨rfl, rfl, ?_⟩
    intro header hheader
    have hheader : header ∈ (r.request.fields ++ r.request.trailers).flatMap Field.entries := by
      rw [List.flatMap_append]
      exact hheader
    exact List.mem_flatMap.mp hheader

theorem Shows.getHeader_ne {d : HttpDecoder} {path : List UInt8} {r : Request}
    (h : Shows d path r) (hplain : ¬AsksUpgrade r) :
    getHeader d (ofString "Upgrade") ≠ ofString "websocket" := by
  intro hheader
  rw [getHeader] at hheader
  cases hfind : d.headers.find? (fun item ↦ item.1 == ofString "Upgrade") with
  | none =>
    rw [hfind] at hheader
    exact absurd hheader (by decide +kernel)
  | some header =>
    rw [hfind, Option.map_some, Option.getD_some] at hheader
    have hname := List.find?_some hfind
    obtain ⟨f, hf, hentry⟩ := h.headers header (List.mem_of_find?_eq_some hfind)
    obtain ⟨part, hpart, rfl⟩ := List.mem_map.mp hentry
    exact hplain ⟨f, hf, beq_iff_eq.mp hname, hheader ▸ hpart⟩

/-! ## The two answers -/

variable {routes : HttpRouteMap} {now : DateText} {returns : List UInt8 → Bool} {s : TcpSocket}

theorem wsock_handleData (hg : Reports g) (r : Http.Sent g) (hplain : ¬AsksUpgrade r.request) :
    WSockFactory.handleData p routes now returns s r.bytes
      = some (WSockFactory.respond routes now returns s (parseRequest p r.bytes).1) := by
  rw [WSockFactory.handleData, if_pos (parsed_pos r),
    if_neg ((shows_parseRequest hg r).getHeader_ne hplain)]

theorem servedByHttp_eq (routes : HttpRouteMap) (now : DateText) (hg : Reports g)
    (hopen : s.isOpen = true) (r : Http.Sent g) :
    (servedByHttp p routes now s r.bytes).route
        = (if (routes (r.request.path p)).isSome then some (r.request.path p) else none) ∧
      sentBetween s (servedByHttp p routes now s r.bytes).sock
        = (replies (httpFactory routes now s) (parseRequest p r.bytes).1
            (r.request.path p)).flatten := by
  have hpath := (shows_parseRequest hg r).httpPath
  rw [servedByHttp, HttpConnection.handleData, if_pos (parsed_pos r)]
  refine ⟨?_, sentBetween_eq (appended_respond hopen hpath)⟩
  simp only [List.nil_append, HttpFactory.route, HttpDecoder.seen, hpath, httpFactory,
    Option.isSome_map]
  split_ifs <;> rfl

theorem replies_none {d : HttpDecoder} {path : List UInt8} (h : routes path = none) :
    (replies (httpFactory routes now s) d path).flatten = (ownResponse 404).encode now := by
  rw [replies, httpFactory]
  simp [h]

theorem replies_some {d : HttpDecoder} {path : List UInt8} {handler : HttpHandler}
    (h : routes path = some handler) :
    (replies (httpFactory routes now s) d path).flatten = []
      ↔ (handler.call d).Silent { hasWriter := true } := by
  rw [← @Program.sent_eq_nil_iff now s { hasWriter := true } rfl, replies, httpFactory]
  simp only [h, Option.map_some]
  generalize hanswer : (handler.call d).answer now { hasWriter := true } s = answer
  have hne : ∀ msg ∈ answer.sent, msg ≠ [] := hanswer ▸ Program.ne_nil_of_mem_sent _
  rw [List.flatten_append, List.append_eq_nil_iff]
  refine and_congr ?_ ?_
  · constructor
    · intro hnil
      refine List.eq_nil_iff_forall_not_mem.mpr fun msg hmsg ↦ ?_
      exact hne msg hmsg (List.flatten_eq_nil_iff.mp hnil msg hmsg)
    · intro hnil
      rw [hnil, List.flatten_nil]
  · split_ifs with hrst
    · simp [HttpResponse.encode_ne_nil, hrst]
    · simp [Int.not_lt.mp hrst]

/-- The 404 of the websocket server, which closes the connection behind it. -/
theorem sentBetween_notFound (now : DateText) (hopen : s.isOpen = true) :
    sentBetween s (WSockConnection.write now s (ownResponse 404))
      = (ownResponse 404).encode now := by
  have happended := (send_open hopen ((ownResponse 404).encode now)).2
  rw [WSockConnection.write, if_pos (by decide),
    sentBetween_eq ((appended_close _).trans happended), List.flatten_singleton]

/-- **The exact condition.** A websocket server answers a request that is not for an upgrade as an
HTTP server with the same routes does exactly if neither has a route for it, or both have the same
and its handler has nothing to say. -/
theorem sameAnswer_iff (hg : Reports g) (routes : HttpRouteMap) (now : DateText)
    (returns : List UInt8 → Bool) (hopen : s.isOpen = true) (r : Http.Sent g)
    (hplain : ¬AsksUpgrade r.request) :
    SameAnswer p routes now returns s r.bytes ↔ Agreed p routes returns r.bytes r.request := by
  obtain ⟨hroute, hsent⟩ := servedByHttp_eq routes now hg hopen r
  rw [SameAnswer, wsock_handleData hg r hplain, hroute, hsent, Agreed, WSockFactory.respond,
    (shows_parseRequest hg r).httpUrl]
  simp only [Option.some.injEq, exists_eq_left']
  have hstill : sentBetween s s = [] := sentBetween_eq (List.append_nil _).symm
  cases hkey : HttpUrl.path returns r.request.url with
  | none =>
    -- nothing is sent, not even the 404 of the other server
    simp only [reduceCtorEq, false_and, exists_false, and_false, or_self, iff_false]
    rintro ⟨hnone, hbytes⟩
    cases hroutes : routes (r.request.path p) with
    | none =>
      rw [replies_none hroutes, hstill] at hbytes
      exact HttpResponse.encode_ne_nil _ now hbytes
    | some handler => simp [hroutes] at hnone
  | some key =>
    simp only [Option.some.injEq, exists_eq_left']
    cases hother : routes key with
    | none =>
      simp only
      cases hroutes : routes (r.request.path p) with
      | none =>
        rw [replies_none hroutes, sentBetween_notFound now hopen]
        simp
      | some handler =>
        have hne : key ≠ r.request.path p := by
          rintro rfl
          exact absurd (hother.symm.trans hroutes).symm (Option.some_ne_none handler)
        simp [hne]
    | some handler =>
      simp only
      have hquiet : sentBetween s (((handler.call (parseRequest p r.bytes).1).answer now {}
          s).sent.foldl send s) = [] := by
        rw [Program.sent_eq_nil rfl]
        exact hstill
      rw [hquiet]
      cases hroutes : routes (r.request.path p) with
      | none => simp
      | some handler' =>
        rw [replies_some hroutes]
        simp [eq_comm]

end Requests

/-! ### A handler that answers -/

section Hello

open HttpConnection HttpResponse

theorem reports_grammarA : Reports grammarA := by
  rintro _ _ ⟨rfl, rfl⟩
  rw [HttpParser.calls, parserA]
  simp only [if_pos (List.prefix_refl bytesA)]
  rfl

theorem not_asksUpgrade_requestA : ¬AsksUpgrade requestA := by
  rintro ⟨f, hf, hname, -⟩
  rw [List.mem_singleton.mp hf] at hname
  exact absurd hname (by decide +kernel)

/-- No routes at all. -/
def noRoutes : HttpRouteMap := fun _ ↦ none

/-- Without routes both servers answer with a 404. -/
theorem sameAnswer_noRoutes :
    SameAnswer parserA noRoutes epoch (fun _ ↦ true) HttpConnection.accepted.sock bytesA :=
  (sameAnswer_iff reports_grammarA noRoutes epoch (fun _ ↦ true) (by decide) sentA
    not_asksUpgrade_requestA).mpr (.inl ⟨rfl, ofString "/a", by decide +kernel, rfl⟩)

/-- A greeting at `/a`. -/
def hello : HttpRouteMap := fun path ↦
  if path = ofString "/a" then some ⟨some fun _ ↦ .write (ofString "hello") 200 .ret, none⟩
  else none

/-- **On the websocket server nobody hears it.** -/
theorem greeting_not_sent :
    ¬SameAnswer parserA hello epoch (fun _ ↦ true) HttpConnection.accepted.sock bytesA := by
  rintro ⟨served, hserved, -, hsame⟩
  have hquiet : (WSockFactory.handleData parserA hello epoch (fun _ ↦ true)
      HttpConnection.accepted.sock bytesA).map (fun x ↦ sentBetween HttpConnection.accepted.sock
        x.sock) = some [] := by
    decide +kernel
  have hheard : sentBetween HttpConnection.accepted.sock (servedByHttp parserA hello epoch
      HttpConnection.accepted.sock bytesA).sock ≠ [] := by
    decide +kernel
  rw [hserved, Option.map_some, Option.some.injEq] at hquiet
  exact hheard (hsame.trans hquiet)

end Hello

end Knet.WebSocket
