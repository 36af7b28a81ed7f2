import Knet.Http.Decoder
import Knet.Lib.Bytes
import Knet.Tcp.Framing

/-!
# The HTTP connection

`HttpConnection` leaves `handle_package` as it is, so that every read is one package, and hands each
package to a decoder of its own. If the parser says that it has parsed anything at all, the package
is answered: by the handler of the route, or by a 404. Then the connection is closed.

The parser says so after the first byte of a request. A request that arrives in two reads is
therefore answered when the first of them is there, from what is known by then, and the second is
never looked at; and of two requests in one read the decoder shows a mixture. `handledOnce_iff` is
the exact condition under which the connection does what one expects of it.

## The order of handlers

`close` posts its work to the io context. The next read is started afterwards, and the io context
runs what it has been given in order, so that the completion of a read comes behind everything that
was posted before the read was started. `ahead` counts what is left of that.
-/

namespace Knet.Http

open Knet.Tcp

/-! ## The grammar -/

/-- The parser follows the message grammar. -/
structure Grammar (p : HttpParser) where
  /-- The bytes of a well-formed request, and the request. -/
  IsRequest : List UInt8 → Request → Prop
  bytes_ne_nil : ∀ {bytes r}, IsRequest bytes r → bytes ≠ []
  /-- A complete request is reported first, whatever follows it. Of what follows, a body is reported
  only after the header that announces it. -/
  calls_append : ∀ {bytes r}, IsRequest bytes r → ∀ tail, ∃ rest,
    p.calls .httpRequest (bytes ++ tail) = r.calls ++ rest ∧ BodyAnnounced rest
  /-- A part of a request is parsed, and so is a request with something behind it. -/
  execute_pos : ∀ {bytes r}, IsRequest bytes r → ∀ {data}, data ≠ [] →
    data <+: bytes ∨ bytes <+: data → 0 < (p.execute .httpRequest data).2
  /-- There is something in front of the end of a head. -/
  head_pos : ∀ {data off}, (off, .onHeadersComplete) ∈ (p.execute .httpRequest data).1 → 0 < off

/-- A well-formed request and its bytes. -/
structure Sent {p : HttpParser} (g : Grammar p) where
  bytes : List UInt8
  request : Request
  wellFormed : g.IsRequest bytes request

/-! ## The routes -/

/-- What a handler does: the messages it sends through `response.writer`, and what it returns. -/
structure Answer where
  sent : List (List UInt8)
  rst : ℤ

/-- What the factory gives a connection in `on_create`, and the texts of the responses that the
connection makes itself. -/
structure HttpFactory where
  /-- `http_routers`, with `HttpHandler::call` for the handler. -/
  httpRouters : List UInt8 → Option (HttpDecoder → Answer)
  /-- `HttpResponse(code).to_string()`. -/
  encode : ℕ → List UInt8

/-- What becomes of a package. -/
inductive Invocation
  /-- The handler of the route is called. -/
  | handler (seen : Seen)
  /-- A 404 is sent. -/
  | notFound (seen : Seen)
  /-- The routes are searched for what a view without a string refers to. -/
  | undefined
  deriving DecidableEq, Repr

/-- What the routes make of a request. -/
def HttpFactory.route (f : HttpFactory) (x : Seen) : Invocation :=
  match x.path with
  | none => .undefined
  | some path => if (f.httpRouters path).isSome then .handler x else .notFound x

/-! ## The connection -/

/-- A connection that the listener has accepted. -/
structure HttpConnection where
  sock : TcpSocket
  /-- How many of the posted handlers were posted before the outstanding read was started. -/
  ahead : ℕ := 0
  /-- What became of the packages so far. -/
  invoked : List Invocation := []

/-- `send`, called on the thread of the socket. -/
def send (s : TcpSocket) (msg : List UInt8) : TcpSocket :=
  if s.isOpen then ({ s.msend [.str msg] with posting := s.posting }).doSend else s.msend [.str msg]

/-- `HttpConnection::write`. -/
def write (s : TcpSocket) (rsp : List UInt8) : TcpSocket :=
  (if s.isOpen then send s rsp else s).close

namespace HttpConnection

variable (p : HttpParser) (f : HttpFactory)

/-- The calls that `handle_data` makes on the socket, for a decoded request. Where the path is a
view without a string there is no telling which branch is taken; both of them close. -/
def respond (s : TcpSocket) (d : HttpDecoder) : TcpSocket :=
  match d.httpPath with
  | none => s.close
  | some path =>
    match f.httpRouters path with
    | some handler =>
      let s := (handler d).sent.foldl send s
      (if (handler d).rst < 0 then write s (f.encode 501) else s).close
    | none => (write s (f.encode 404)).close

/-- `handle_data`. The routes are those that the factory has set. -/
def handleData (c : HttpConnection) (data : List UInt8) : HttpConnection :=
  if 0 < (parseRequest p data).2 then
    { c with
      sock := respond f c.sock (parseRequest p data).1
      invoked := c.invoked ++ [f.route (parseRequest p data).1.seen] }
  else c

/-- The packages that a completed read has delivered. -/
def newData (s t : TcpSocket) : List (List UInt8) :=
  (delivered t.log).drop (delivered s.log).length

/-- After a read that has led from the socket of `c` to `s`, with the next one started. -/
def served (c : HttpConnection) (s : TcpSocket) : HttpConnection :=
  let c' := (newData c.sock s).foldl (handleData p f) { c with sock := s }
  { c' with ahead := c'.sock.posted.length }

/-- What can happen to the connection as long as nothing fails. -/
inductive Action
  /-- The outstanding read completes. -/
  | read (chunk : List UInt8)
  /-- The io context runs the oldest posted handler. -/
  | runTask (now : ℕ)
  /-- The operating system takes bytes of a write. -/
  | take (i n : ℕ)
  /-- A write completes. -/
  | writeDone (i now : ℕ)
  deriving DecidableEq, Repr

/-- One step. -/
def step (c : HttpConnection) : Action → Option HttpConnection
  | .read chunk =>
    if c.ahead = 0 then
      ((TcpSocket.system wholeReads).step c.sock (.readDone 0 (some chunk))).map (c.served p f)
    else none
  | .runTask now =>
    ((TcpSocket.system wholeReads).step c.sock (.runTask now)).map fun s ↦
      { c with sock := s, ahead := c.ahead - 1 }
  | .take i n =>
    ((TcpSocket.system wholeReads).step c.sock (.take i n)).map fun s ↦ { c with sock := s }
  | .writeDone i now =>
    ((TcpSocket.system wholeReads).step c.sock (.writeDone i true now)).map fun s ↦
      { c with sock := s }

/-- The connection as a step system. -/
def system : StepSystem HttpConnection Action := ⟨step p f⟩

@[simp] theorem system_step (c : HttpConnection) (a : Action) :
    (system p f).step c a = c.step p f a := rfl

/-- A connection that waits for its first read. -/
def accepted : HttpConnection := ⟨Tcp.accepted.initRead wholeReads, 0, []⟩

/-- The reads of a run. -/
def readsIn : List Action → List (List UInt8)
  | [] => []
  | .read chunk :: as => chunk :: readsIn as
  | _ :: as => readsIn as

/-! ## What answering does to the socket -/

/-- The socket `t` is `s` with more handed to it and more posted. -/
structure Posts (s t : TcpSocket) : Prop where
  status : t.socketStatus = s.socketStatus
  connection : t.connection = s.connection
  isOpen : t.tcpSockOpen = s.tcpSockOpen
  reconnFlag : t.reconnFlag = s.reconnFlag
  posted : s.posted <+: t.posted

theorem Posts.refl (s : TcpSocket) : Posts s s := ⟨rfl, rfl, rfl, rfl, List.prefix_refl _⟩

theorem Posts.trans {s t u : TcpSocket} (h : Posts s t) (h' : Posts t u) : Posts s u :=
  ⟨h'.status.trans h.status, h'.connection.trans h.connection, h'.isOpen.trans h.isOpen,
    h'.reconnFlag.trans h.reconnFlag, h.posted.trans h'.posted⟩

theorem posts_send (s : TcpSocket) (msg : List UInt8) : Posts s (send s msg) := by
  rw [send]
  split_ifs with hopen
  · rw [TcpSocket.msend, if_pos hopen]
    exact ⟨rfl, rfl, rfl, rfl, List.prefix_append _ _⟩
  · rw [TcpSocket.msend, if_neg hopen]
    exact ⟨rfl, rfl, rfl, rfl, List.prefix_refl _⟩

theorem posts_close (s : TcpSocket) : Posts s s.close := by
  rw [TcpSocket.close]
  split_ifs
  · exact .refl s
  · exact ⟨rfl, rfl, rfl, rfl, List.prefix_append _ _⟩

theorem posts_write (s : TcpSocket) (rsp : List UInt8) : Posts s (write s rsp) := by
  rw [write]
  refine Posts.trans ?_ (posts_close _)
  split_ifs
  · exact posts_send s rsp
  · exact .refl s

theorem posts_sends (s : TcpSocket) (msgs : List (List UInt8)) : Posts s (msgs.foldl send s) := by
  induction msgs generalizing s with
  | nil => exact .refl s
  | cons msg msgs ih => exact (posts_send s msg).trans (ih _)

theorem respond_eq_close (f : HttpFactory) (s : TcpSocket) (d : HttpDecoder) :
    ∃ t, Posts s t ∧ respond f s d = t.close := by
  rw [respond]
  cases d.httpPath with
  | none => exact ⟨s, .refl s, rfl⟩
  | some path =>
    simp only
    cases f.httpRouters path with
    | none => exact ⟨_, posts_write s _, rfl⟩
    | some handler =>
      refine ⟨_, ?_, rfl⟩
      refine (posts_sends s (handler d).sent).trans ?_
      split_ifs
      · exact posts_write _ _
      · exact .refl _

theorem close_mem_posted {s : TcpSocket} (h : s.socketStatus = .opened) :
    Task.close ∈ s.close.posted := by
  rw [TcpSocket.close, if_neg (by rw [h]; decide)]
  exact List.mem_append_right _ List.mem_cons_self

/-! ## Once a package has been answered -/

variable {p f}

/-- The connection has answered one package. It is closed, or a handler that closes it will run
before the next read completes. -/
structure Answered (o : Invocation) (c : HttpConnection) : Prop where
  invoked : c.invoked = [o]
  closes : c.sock.connection = true → Task.close ∈ c.sock.posted.take c.ahead
  released : c.sock.connection = false → c.sock.tcpSockOpen = false
  reconnFlag : c.sock.reconnFlag = false

theorem readOk_released {s : TcpSocket} (hconn : s.connection = false)
    (hopen : s.tcpSockOpen = false) (off : ℕ) (chunk : List UInt8) :
    ∃ buf pos, s.readOk wholeReads off chunk = { s with
      readBuffer := buf, readBufferPos := pos, log := s.log ++ [.received chunk] } := by
  simp only [TcpSocket.readOk, TcpSocket.processData, TcpSocket.scanned, TcpSocket.doRead, hconn,
    hopen, Bool.false_eq_true, if_false]
  exact ⟨_, _, rfl⟩

theorem newData_append {s t : TcpSocket} {l : List Entry} (h : t.log = s.log ++ l) :
    newData s t = delivered l := by
  rw [newData, h, delivered_append, List.drop_left]

/-- An answered connection stays one when what it needs of the socket is kept. -/
theorem Answered.of_eq {o : Invocation} {c c' : HttpConnection} (h : Answered o c)
    (hinvoked : c'.invoked = c.invoked) (hconn : c'.sock.connection = c.sock.connection)
    (hopen : c'.sock.tcpSockOpen = c.sock.tcpSockOpen)
    (hflag : c'.sock.reconnFlag = c.sock.reconnFlag)
    (hposted : Task.close ∈ c.sock.posted.take c.ahead →
      Task.close ∈ c'.sock.posted.take c'.ahead) : Answered o c' := by
  refine ⟨hinvoked.trans h.invoked, ?_, ?_, hflag.trans h.reconnFlag⟩
  · intro hc
    exact hposted (h.closes (hconn.symm.trans hc))
  · intro hc
    exact hopen.trans (h.released (hconn.symm.trans hc))

theorem Answered.read {o : Invocation} {c c' : HttpConnection} {chunk : List UInt8}
    (h : Answered o c) (hstep : (system p f).step c (.read chunk) = some c') : Answered o c' := by
  rw [system_step, HttpConnection.step] at hstep
  split_ifs at hstep with hahead
  -- what was posted before the read was started has run, so that the connection is closed
  have hconn : c.sock.connection = false := by
    refine Bool.eq_false_iff.mpr fun hc ↦ ?_
    have hmem := h.closes hc
    rw [hahead, List.take_zero] at hmem
    exact List.not_mem_nil hmem
  obtain ⟨t, hread, rfl⟩ := Option.map_eq_some_iff.mp hstep
  cases TcpSocket.fires_of_step hread with
  | readOk i op chunk hop hchunk hroom =>
    obtain ⟨buf, pos, hok⟩ :=
      readOk_released (s := { c.sock with reads := c.sock.reads.eraseIdx 0 })
      hconn (h.released hconn) op.off chunk
    rw [hok, served, newData_append rfl]
    refine ⟨h.invoked, ?_, fun _ ↦ h.released hconn, h.reconnFlag⟩
    intro hc
    exact absurd (hconn.symm.trans hc) Bool.false_ne_true

theorem Answered.doAsyncWrite {o : Invocation} {c : HttpConnection} {s : TcpSocket} {ahead : ℕ}
    (h : Answered o { c with sock := s, ahead := ahead }) (now : ℕ) :
    Answered o { c with sock := s.doAsyncWrite now, ahead := ahead } := by
  obtain ⟨_, _, _, _, _, _, hframe⟩ := s.doAsyncWrite_frame now
  rw [hframe]
  exact h.of_eq rfl rfl rfl rfl id

/-- The handler that `close` posts releases a connection that is not to be connected again. -/
theorem closed_closeTask {s : TcpSocket} (h : s.reconnFlag = false) (now : ℕ) :
    (s.closeTask now).connection = false ∧ (s.closeTask now).tcpSockOpen = false
      ∧ (s.closeTask now).reconnFlag = false := by
  have hre : s.needReconnect = false := by rw [TcpSocket.needReconnect, h, Bool.false_and]
  obtain ⟨_, _, _, _, _, _, hframe⟩ := s.doAsyncWrite_frame now
  rw [TcpSocket.closeTask_eq]
  simp only [hframe, hre, Bool.false_eq_true, if_false]
  split_ifs with hconn hsend
  · exact ⟨rfl, rfl, h⟩
  · exact ⟨rfl, rfl, h⟩
  · exact ⟨Bool.eq_false_iff.mpr hconn, rfl, h⟩

theorem Answered.runTask {o : Invocation} {c c' : HttpConnection} {now : ℕ} (h : Answered o c)
    (hstep : (system p f).step c (.runTask now) = some c') : Answered o c' := by
  obtain ⟨t, htask, rfl⟩ := Option.map_eq_some_iff.mp hstep
  cases TcpSocket.fires_of_step htask with
  | doSend now rest hposted =>
    have hbefore : Answered o { c with
        sock := { c.sock with posted := rest }, ahead := c.ahead - 1 } := by
      refine h.of_eq rfl rfl rfl rfl fun hmem ↦ ?_
      rw [hposted] at hmem
      cases hahead : c.ahead with
      | zero =>
        rw [hahead, List.take_zero] at hmem
        exact absurd hmem List.not_mem_nil
      | succ n =>
        rw [hahead, List.take_succ_cons] at hmem
        exact List.mem_of_ne_of_mem (by decide) hmem
    rw [TcpSocket.doSendTask]
    split_ifs
    · exact hbefore
    · exact hbefore.doAsyncWrite now
  | closeTask now rest hposted =>
    obtain ⟨hconn, hopen, hflag⟩ :=
      closed_closeTask (s := { c.sock with posted := rest }) h.reconnFlag now
    refine ⟨h.invoked, ?_, fun _ ↦ hopen, hflag⟩
    intro hc
    exact absurd (hconn.symm.trans hc) Bool.false_ne_true

/-- **The connection answers no second package.** -/
theorem Answered.step {o : Invocation} {c c' : HttpConnection} {a : Action} (h : Answered o c)
    (hstep : (system p f).step c a = some c') : Answered o c' := by
  cases a with
  | read chunk => exact h.read hstep
  | runTask now => exact h.runTask hstep
  | take i n =>
    obtain ⟨t, htake, rfl⟩ := Option.map_eq_some_iff.mp hstep
    cases TcpSocket.fires_of_step htake with
    | take => exact h.of_eq rfl rfl rfl rfl id
  | writeDone i now =>
    obtain ⟨t, hwrite, rfl⟩ := Option.map_eq_some_iff.mp hstep
    cases TcpSocket.fires_of_step hwrite with
    | writeOk i now w hw hrest =>
      refine Answered.doAsyncWrite ?_ now
      split_ifs <;> exact h.of_eq rfl rfl rfl rfl id

/-! ## The first read -/

theorem reconnFlag_doClose (s : TcpSocket) : s.doClose.reconnFlag = s.reconnFlag := by
  rw [TcpSocket.doClose_eq]
  split_ifs <;> rfl

theorem reconnFlag_processData (s : TcpSocket) (nread : ℕ) :
    (s.processData wholeReads nread).reconnFlag = s.reconnFlag := by
  simp only [TcpSocket.processData]
  split_ifs
  · exact reconnFlag_doClose _
  · rfl
  · rfl

theorem reconnFlag_doRead (s : TcpSocket) : (s.doRead wholeReads).reconnFlag = s.reconnFlag := by
  simp only [TcpSocket.doRead]
  split_ifs
  · rfl
  · exact (reconnFlag_doClose _).trans (reconnFlag_processData s 0)
  · exact reconnFlag_processData s 0
  · rfl

/-- A read on an open connection delivers what it has read as one package. -/
theorem readNext_wholeReads {s : TcpSocket} {chunk : List UInt8}
    (h : TcpSocket.Holding wholeReads s []) (hchunk : 0 < chunk.length) :
    TcpSocket.Holding wholeReads (TcpSocket.readNext wholeReads s [] chunk) []
      ∧ newData s (TcpSocket.readNext wholeReads s [] chunk) = [chunk] := by
  obtain ⟨hholding, hlog⟩ := readNext_exact (K := kReadBufferSize) (f := fun d ↦ d.length) h
    hchunk rfl
  exact ⟨hholding, newData_append hlog⟩

theorem answered_handleData {c : HttpConnection} {data : List UInt8} (hinvoked : c.invoked = [])
    (hstatus : c.sock.socketStatus = .opened) (hconn : c.sock.connection = true)
    (hflag : c.sock.reconnFlag = false) (hpos : 0 < (parseRequest p data).2) :
    Answered (f.route (parseRequest p data).1.seen)
      { c.handleData p f data with ahead := (c.handleData p f data).sock.posted.length } := by
  obtain ⟨t, hposts, hclose⟩ := respond_eq_close f c.sock (parseRequest p data).1
  have hall := hposts.trans (posts_close t)
  rw [handleData, if_pos hpos, hclose, hinvoked]
  refine ⟨rfl, ?_, ?_, hall.reconnFlag.trans hflag⟩
  · intro _
    rw [List.take_length]
    exact close_mem_posted (hposts.status.trans hstatus)
  · intro hreleased
    exact absurd ((hall.connection.trans hconn).symm.trans hreleased) Bool.true_eq_false.mp

theorem holding_accepted : TcpSocket.Holding wholeReads accepted.sock [] :=
  TcpSocket.holding_accepted (by decide)

theorem step_read_accepted {chunk : List UInt8} {c : HttpConnection} :
    (system p f).step accepted (.read chunk) = some c ↔
      0 < chunk.length ∧ chunk.length ≤ kReadBufferSize
        ∧ c = served p f accepted (TcpSocket.readNext wholeReads accepted.sock [] chunk) := by
  have hread (t : TcpSocket) := @TcpSocket.Holding.step_iff wholeReads _ t _ chunk holding_accepted
  rw [system_step, HttpConnection.step, if_pos (show accepted.ahead = 0 from rfl),
    Option.map_eq_some_iff]
  constructor
  · rintro ⟨t, ht, rfl⟩
    obtain ⟨hchunk, hroom, rfl⟩ := (hread t).mp ht
    exact ⟨hchunk, hroom, rfl⟩
  · rintro ⟨hchunk, hroom, rfl⟩
    exact ⟨_, (hread _).mpr ⟨hchunk, hroom, rfl⟩, rfl⟩

theorem answered_read {chunk : List UInt8} {c : HttpConnection}
    (hstep : (system p f).step accepted (.read chunk) = some c)
    (hpos : 0 < (parseRequest p chunk).2) :
    Answered (f.route (parseRequest p chunk).1.seen) c := by
  obtain ⟨hchunk, -, rfl⟩ := step_read_accepted.mp hstep
  obtain ⟨hholding, hnew⟩ := readNext_wholeReads holding_accepted hchunk
  have hflag : (TcpSocket.readNext wholeReads accepted.sock [] chunk).reconnFlag = false :=
    (reconnFlag_doRead _).trans (reconnFlag_processData _ _)
  rw [served, hnew, List.foldl_cons, List.foldl_nil]
  exact answered_handleData
    (c := { accepted with sock := TcpSocket.readNext wholeReads _ [] chunk })
    rfl hholding.status hholding.connection hflag hpos

theorem exists_read_of_step {c : HttpConnection} {a : Action}
    (hstep : (system p f).step accepted a = some c) : ∃ chunk, a = .read chunk := by
  cases a with
  | read chunk => exact ⟨chunk, rfl⟩
  | runTask now => exact absurd hstep.symm (Option.some_ne_none c)
  | take i n => exact absurd hstep.symm (Option.some_ne_none c)
  | writeDone i now => exact absurd hstep.symm (Option.some_ne_none c)

theorem invoked_run {as : List Action} {c : HttpConnection}
    (hrun : (system p f).run accepted as = some c) :
    (as = [] ∧ c = accepted) ∨ ∃ chunk chunks, readsIn as = chunk :: chunks
      ∧ (0 < (parseRequest p chunk).2 → c.invoked = [f.route (parseRequest p chunk).1.seen]) := by
  cases as with
  | nil => exact .inl ⟨rfl, (Option.some.inj hrun).symm⟩
  | cons a as =>
    obtain ⟨c₁, hstep, hrest⟩ := StepSystem.run_cons_eq_some.mp hrun
    obtain ⟨chunk, rfl⟩ := exists_read_of_step hstep
    refine .inr ⟨chunk, readsIn as, rfl, fun hpos ↦ ?_⟩
    have hlast : Answered (f.route (parseRequest p chunk).1.seen) c :=
      StepSystem.invariant_of_run (C := fun _ _ ↦ True) (answered_read hstep hpos)
        (fun _ _ _ h hs _ ↦ h.step hs) (StepSystem.along_of_forall (fun _ _ ↦ trivial) _ _) hrest
    exact hlast.invoked

/-! ## Requests on a connection -/

/-- What is to become of a request. -/
def expected {g : Grammar p} (f : HttpFactory) (r : Sent g) : Invocation :=
  f.route (r.request.seen p)

/-- **Once each.** With the bytes `got` received of the requests, handlers have been called and 404s
sent for some of the requests, in order, each for what that request says; for the first one if it is
complete, and for none if it is not. -/
structure HandledOnce {g : Grammar p} (f : HttpFactory) (r : Sent g) (rs : List (Sent g))
    (got : List UInt8) (invoked : List Invocation) : Prop where
  inOrder : invoked.Sublist ((r :: rs).map (expected f))
  first : r.bytes <+: got → ∃ more, invoked = expected f r :: more
  notBefore : ¬r.bytes <+: got → invoked = []

/-- In every state of every run in which no more than `chunks` has been read, the requests are
handled once each. -/
def Handles {g : Grammar p} (f : HttpFactory) (r : Sent g) (rs : List (Sent g))
    (chunks : List (List UInt8)) : Prop :=
  ∀ as c, (system p f).run accepted as = some c → readsIn as <+: chunks →
    HandledOnce f r rs (readsIn as).flatten c.invoked

/-- The number returned for a read that starts a stream of requests is positive. -/
theorem parse_pos (g : Grammar p) {r : Sent g} {rs : List (Sent g)} {chunk : List UInt8}
    (hne : chunk ≠ []) (hchunk : chunk <+: ((r :: rs).map Sent.bytes).flatten) :
    0 < (parseRequest p chunk).2 := by
  refine HttpDecoder.parsed_pos (g.execute_pos r.wellFormed hne ?_) fun off ↦ g.head_pos
  rw [List.map_cons, List.flatten_cons] at hchunk
  exact List.prefix_or_prefix_of_prefix hchunk (List.prefix_append _ _)

theorem route_eq_expected {g : Grammar p} {r : Sent g} {x : Seen} :
    f.route x = expected f r ↔ x = r.request.seen p := by
  constructor
  · intro h
    rw [expected, HttpFactory.route, HttpFactory.route, Request.seen] at h
    simp only at h
    cases hpath : x.path with
    | none =>
      rw [hpath] at h
      simp only at h
      split_ifs at h
    | some path =>
      rw [hpath] at h
      simp only at h
      split_ifs at h with h1 h2 h2
      · exact Invocation.handler.inj h
      · exact Invocation.notFound.inj h
  · rintro rfl
    rfl

theorem route_parse_eq_iff {g : Grammar p} {r : Sent g} {chunk : List UInt8}
    (h : r.bytes <+: chunk) :
    f.route (parseRequest p chunk).1.seen = expected f r ↔
      r.request.Shown p ((p.calls .httpRequest chunk).drop r.request.calls.length) := by
  obtain ⟨tail, rfl⟩ := h
  obtain ⟨rest, hcalls, hrest⟩ := g.calls_append r.wellFormed tail
  rw [route_eq_expected, parseRequest, parse, hcalls, List.drop_left, Request.seen_eq_iff hrest]

/-- **The exact condition.** Of requests that arrive in the reads `chunk :: chunks`, each is handled
once in every state of every run exactly if the first read brings the whole first request, the
callbacks can show that request, and nothing that stands behind it in the same read changes what
they show. -/
theorem handledOnce_iff (g : Grammar p) (f : HttpFactory) (r : Sent g) (rs : List (Sent g))
    {chunk : List UInt8} {chunks : List (List UInt8)}
    (hstream : (chunk :: chunks).flatten <+: ((r :: rs).map Sent.bytes).flatten)
    (hne : chunk ≠ []) (hroom : chunk.length ≤ kReadBufferSize) :
    Handles f r rs (chunk :: chunks) ↔
      r.bytes <+: chunk ∧
        r.request.Shown p ((p.calls .httpRequest chunk).drop r.request.calls.length) := by
  have hpos : 0 < (parseRequest p chunk).2 :=
    parse_pos g hne ((List.prefix_append _ _).trans hstream)
  constructor
  · intro h
    -- the run that consists of the first read
    obtain ⟨c, hstep⟩ : ∃ c, (system p f).step accepted (.read chunk) = some c :=
      ⟨_, step_read_accepted.mpr ⟨List.length_pos_iff.mpr hne, hroom, rfl⟩⟩
    have hinvoked := (answered_read hstep hpos).invoked
    obtain ⟨-, hfirst, hbefore⟩ := h [.read chunk] c
      (StepSystem.run_cons_eq_some.mpr ⟨c, hstep, rfl⟩) ⟨chunks, rfl⟩
    rw [show (readsIn [.read chunk]).flatten = chunk from List.append_nil _] at hfirst hbefore
    by_cases hpre : r.bytes <+: chunk
    · obtain ⟨more, hmore⟩ := hfirst hpre
      rw [hinvoked, List.cons.injEq] at hmore
      exact ⟨hpre, (route_parse_eq_iff hpre).mp hmore.1⟩
    · rw [hinvoked] at hbefore
      exact absurd (hbefore hpre) (List.cons_ne_nil _ _)
  · rintro ⟨hpre, hshown⟩ as c hrun hreads
    rcases invoked_run hrun with ⟨rfl, rfl⟩ | ⟨chunk', chunks', hread, hinvoked⟩
    · refine ⟨List.nil_sublist _, ?_, fun _ ↦ rfl⟩
      intro hnil
      exact absurd (List.prefix_nil.mp hnil) (g.bytes_ne_nil r.wellFormed)
    · rw [hread] at hreads ⊢
      obtain rfl := (List.cons_prefix_cons.mp hreads).1
      rw [hinvoked hpos, (route_parse_eq_iff hpre).mpr hshown]
      refine ⟨List.singleton_sublist.mpr List.mem_cons_self, fun _ ↦ ⟨[], rfl⟩, ?_⟩
      intro hnot
      exact absurd (hpre.trans (List.prefix_append _ _)) hnot

/-! ### A request in two reads -/

section TwoReads

open Bytes

/-- The first line of a request. -/
def lineA : List UInt8 := ofString "GET /a HTTP/1.1\r\n"

/-- What comes behind the request line. -/
def hostA : List UInt8 := ofString "Host: b\r\n\r\n"

/-- The whole request. -/
def bytesA : List UInt8 := lineA ++ hostA

/-- What the parser reports for it. -/
def requestA : Request where
  url := ofString "/a"
  fields := [⟨ofString "Host", [ofString "b"], List.cons_ne_nil _ _⟩]
  body := []
  body_ne_nil := by simp
  trailers := []

/-- A parser that knows this request and its first line. -/
def parserA : HttpParser where
  execute _ data :=
    if bytesA <+: data then (requestA.calls.map fun call ↦ (lineA.length, call), bytesA.length)
    else if lineA <+: data then ([(lineA.length, .onUrl (ofString "/a"))], data.length)
    else ([], data.length)
  parseUrl url := some ⟨some url, none⟩

/-- It follows the grammar, of which it knows one request. -/
def grammarA : Grammar parserA where
  IsRequest bytes r := bytes = bytesA ∧ r = requestA
  bytes_ne_nil := by
    rintro _ _ ⟨rfl, rfl⟩
    decide +kernel
  calls_append := by
    rintro _ _ ⟨rfl, rfl⟩ tail
    refine ⟨[], ?_, trivial⟩
    rw [HttpParser.calls, parserA]
    simp only [if_pos (List.prefix_append bytesA tail)]
    rfl
  execute_pos := by
    rintro _ _ ⟨rfl, rfl⟩ data hne -
    have hdata : 0 < data.length := List.length_pos_iff.mpr hne
    rw [parserA]
    simp only
    split_ifs
    · decide
    · exact hdata
    · exact hdata
  head_pos := by
    intro data off h
    rw [parserA] at h
    simp only at h
    split_ifs at h with hwhole hline
    · obtain ⟨call, -, heq⟩ := List.mem_map.mp h
      rw [← (Prod.mk.inj heq).1]
      decide
    · cases List.mem_singleton.mp h
    · cases h

def sentA : Sent grammarA := ⟨bytesA, requestA, rfl, rfl⟩

/-- A server whose only route is `/a`. -/
def factoryA : HttpFactory where
  httpRouters path := if path = ofString "/a" then some fun _ ↦ ⟨[], 0⟩ else none
  encode _ := []

/-- A request that arrives whole is handled once, whatever happens afterwards. -/
theorem handledOnce_whole : Handles factoryA sentA [] [bytesA] :=
  (handledOnce_iff grammarA factoryA sentA [] (List.prefix_refl _) (by decide) (by decide)).mpr
    ⟨List.prefix_refl _, by decide, by decide, by decide, by decide, by decide⟩

theorem invoked_lineA : ((system parserA factoryA).run accepted [.read lineA]).map invoked
    = some [.notFound ⟨some [], [], []⟩] := by
  decide +kernel

/-- **In two reads, the request is answered after its first line, by a 404**, although there is a
route for it. -/
theorem answered_before_complete : ¬Handles factoryA sentA [] [lineA, hostA] := by
  intro h
  obtain ⟨c, hrun, hinvoked⟩ := Option.map_eq_some_iff.mp invoked_lineA
  have hnil := (h _ c hrun (by decide)).notBefore (by decide)
  rw [hinvoked] at hnil
  exact List.cons_ne_nil _ _ hnil

end TwoReads

end HttpConnection

end Knet.Http
