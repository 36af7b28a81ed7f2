import Knet.Lib.StepSystem
import Knet.Tcp.Basic

/-!
# The TCP socket

`TcpSocket` together with the parts of `TcpConnection` that it calls, as a step system. A state
holds the members of the socket, the reconnect members of the connection, the operations handed to
asio that have not completed yet, and the handlers posted to the io context that have not run yet. A
label is one thing that can happen next: a call from user code, a posted handler being run, the
operating system taking bytes, or a completion.

Handlers of one socket run one at a time on the thread of its worker. The only other threads are
those that call `msend`, whose append is made under `write_mutex`; `msend` is therefore two labels,
the append and the post of `do_send` that follows it after the lock is released.

Beside the members, a state records what an observer needs: the history of the connection (`log`),
the chunks appended by `msend` in lock order, the buffers handed to `async_write`, and the bytes the
operating system has taken.

## Operations in flight

* An `async_write` carries the bytes of `cache_buffer` at the time it was issued and how many of
them have been taken. The first piece may be taken while the operation is being started, hence the
argument `now` of `doAsyncWrite`. Closing the socket leaves the operation in flight but dead:
nothing more is taken, and its completion is still to come.
* An `async_read_some` remembers the address and the room it was given; both stay what they were
when `read_buffer_pos` is reset under it.
* `async_connect` opens the socket when it is started and closes the one that was open before.

`handle_package` may answer anything: it is a function of the whole history of the connection and of
the bytes it is given.
-/

namespace Knet.Tcp

/-- A handler waiting in the queue of the io context. -/
inductive Task
  | doSend
  | close
  deriving DecidableEq, Repr

/-- An outstanding `async_read_some`: the index of the first cell and the room behind it. -/
structure ReadOp where
  off : ℕ
  room : ℕ
  deriving DecidableEq, Repr

/-- An outstanding `async_write`. -/
structure WriteOp where
  /-- The buffer it was given. -/
  data : List UInt8
  /-- How many bytes of it the operating system has taken. -/
  sent : ℕ
  /-- Whether the socket it was issued on is still open. -/
  live : Bool
  deriving DecidableEq, Repr

/-- The bytes of a write that have not been taken yet. -/
def WriteOp.rest (w : WriteOp) : List UInt8 := w.data.drop w.sent

/-- What the socket is instantiated with. -/
structure Config where
  /-- The room in `read_buffer`. -/
  kReadBufferSize : ℕ
  /-- The connection's `handle_package`, given everything the connection has seen so far. -/
  handlePackage : List Entry → List UInt8 → ℤ

/-- `kReadBufferSize` of `TcpSocket`. -/
def kReadBufferSize : ℕ := 1024 * 16

/-- The default `handle_package` of `TcpConnection`: everything that is there is one package. -/
def wholeReads : Config := ⟨kReadBufferSize, fun _ d ↦ d.length⟩

/-- The members of a socket and of its connection, what it has in flight, and its history. -/
structure TcpSocket where
  socketStatus : SocketStatus := .init
  /-- Whether the shared pointer `connection` is set. -/
  connection : Bool := true
  /-- `tcp_sock.is_open()`. -/
  tcpSockOpen : Bool := false
  /-- `read_buffer` and whatever lies behind it. -/
  readBuffer : Memory UInt8 := fun _ ↦ 0
  readBufferPos : ℕ := 0
  sendBuffer : List UInt8 := []
  cacheBuffer : List UInt8 := []
  isWritting : Bool := false
  /-- `reconn_flag`, `passive_mode` and whether the timer `reconn_timer` runs, of the connection. -/
  reconnFlag : Bool := false
  passiveMode : Bool := true
  reconnTimer : Bool := false
  /-- The handlers posted and not yet run, oldest first. -/
  posted : List Task := []
  /-- The calls of `msend` that have made their append and not yet their post. -/
  posting : ℕ := 0
  /-- The outstanding `async_connect` operations. -/
  connects : ℕ := 0
  reads : List ReadOp := []
  writes : List WriteOp := []
  log : List Entry := []
  /-- The bytes appended by each `msend`, in lock order. -/
  appended : List (List UInt8) := []
  /-- The buffers passed to `async_write`. -/
  issued : List (List UInt8) := []
  /-- The bytes the operating system has taken. -/
  wire : List UInt8 := []
  /-- The values returned by `msend`. -/
  results : List ℤ := []

/-- A socket that the listener has just accepted. -/
def accepted : TcpSocket := { tcpSockOpen := true }

/-- Where one run of the loop in `process_data` ends. -/
structure Scan where
  log : List Entry
  readPos : ℕ
  /-- The loop was left by `do_close` and `return false`. -/
  overlong : Bool

namespace TcpSocket

variable (cfg : Config)

/-! ## Events and closing -/

/-- `connection->process_event(evt)`. -/
def processEvent (s : TcpSocket) (evt : NetEvent) : TcpSocket :=
  { s with log := s.log ++ [.event evt] }

/-- `TcpConnection::need_reconnect`. -/
def needReconnect (s : TcpSocket) : Bool := s.reconnFlag && !s.passiveMode

/-- `tcp_sock.close()`: what is in flight on the socket is aborted. -/
def closeTcpSock (s : TcpSocket) : TcpSocket :=
  { s with tcpSockOpen := false, writes := s.writes.map fun w ↦ { w with live := false } }

/-- `TcpConnection::release` followed by `connection.reset()`: all timers of the connection stop. -/
def release (s : TcpSocket) : TcpSocket :=
  { ({ s with reconnTimer := false }).processEvent .release with connection := false }

/-- `do_close`. -/
def doClose (s : TcpSocket) : TcpSocket :=
  if s.socketStatus = .closing ∨ s.socketStatus = .closed then s
  else
    let s := if s.socketStatus.code < SocketStatus.closing.code then
      { s with socketStatus := .closing } else s
    let s := if s.connection then
        let s := { s with sendBuffer := [], cacheBuffer := [] }
        let s := if s.socketStatus.code ≤ SocketStatus.closing.code then
          s.processEvent .disconnect else s
        if s.needReconnect then { s with socketStatus := .reconnect }
        else ({ s with socketStatus := .closed }).closeTcpSock.release
      else ({ s with socketStatus := .closed }).closeTcpSock
    { s with readBufferPos := 0 }

/-! ## Writing -/

/-- `asio::async_write` on `cache_buffer`, when the operating system takes `now` bytes at once. -/
def asyncWrite (s : TcpSocket) (now : ℕ) : TcpSocket :=
  let took := if s.tcpSockOpen then min now s.cacheBuffer.length else 0
  { s with
    writes := s.writes ++ [⟨s.cacheBuffer, took, s.tcpSockOpen⟩]
    issued := s.issued ++ [s.cacheBuffer]
    wire := s.wire ++ s.cacheBuffer.take took }

/-- `do_async_write`. -/
def doAsyncWrite (s : TcpSocket) (now : ℕ) : TcpSocket :=
  let s := if s.sendBuffer ≠ [] then
      if s.cacheBuffer = [] then
        { s with sendBuffer := s.cacheBuffer, cacheBuffer := s.sendBuffer }
      else s
    else s
  if s.cacheBuffer = [] then { s with isWritting := false }
  else ({ s with isWritting := true }).asyncWrite now

/-- The handler posted by `do_send`. -/
def doSendTask (s : TcpSocket) (now : ℕ) : TcpSocket :=
  if s.isWritting then s else s.doAsyncWrite now

/-- `is_open`. -/
def isOpen (s : TcpSocket) : Bool := s.tcpSockOpen && s.socketStatus == .opened

/-- `is_connecting`. -/
def isConnecting (s : TcpSocket) : Bool := s.socketStatus == .connecting

/-- `msend` up to the release of `write_mutex`; on a socket that is not open it returns `-1`. -/
def msend (s : TcpSocket) (args : List Arg) : TcpSocket :=
  if s.isOpen then
    { s with
      sendBuffer := (mpush s.sendBuffer args).1
      posting := s.posting + 1
      appended := s.appended ++ [enqueued s.sendBuffer.length args]
      results := s.results ++ [toInt32 (mpush s.sendBuffer args).2] }
  else { s with results := s.results ++ [-1] }

/-- `do_send`: post the handler. -/
def doSend (s : TcpSocket) : TcpSocket := { s with posted := s.posted ++ [.doSend] }

/-- The completion handler of `async_write`, without an error. -/
def writeOk (s : TcpSocket) (now : ℕ) : TcpSocket :=
  let s := if s.connection then s.processEvent .send else s
  ({ s with cacheBuffer := [] }).doAsyncWrite now

/-- The completion handler of `async_write`, with an error. -/
def writeError (s : TcpSocket) : TcpSocket := ({ s with cacheBuffer := [] }).doClose

/-! ## Reading -/

/-- The loop of `process_data`. The length passed to `process_package` is `read_buffer_pos` in every
round, not what is left behind `readPos`. Every round but the last takes at least one byte, so that
`read_buffer_pos` rounds are enough. -/
def scan (readBuffer : Memory UInt8) (pos : ℕ) : ℕ → List Entry → ℕ → Scan
  | 0, log, readPos => ⟨log, readPos, false⟩
  | fuel + 1, log, readPos =>
    if readPos < pos then
      let given := readBuffer.read readPos pos
      let pkgLen := cfg.handlePackage log given
      let log := log ++ [.package given]
      if pkgLen ≤ 0 ∨ (pos : ℤ) - readPos < pkgLen then
        ⟨log, readPos, decide ((cfg.kReadBufferSize : ℤ) < pkgLen)⟩
      else
        scan readBuffer pos fuel (log ++ [.data (readBuffer.read readPos pkgLen.toNat)])
          (readPos + pkgLen.toNat)
    else ⟨log, readPos, false⟩

/-- The loop as `process_data` enters it after a read of `nread` bytes. -/
def scanned (s : TcpSocket) (nread : ℕ) : Scan :=
  if s.connection then
    scan cfg s.readBuffer (s.readBufferPos + nread) (s.readBufferPos + nread) s.log 0
  else ⟨s.log, 0, false⟩

/-- `process_data`. -/
def processData (s : TcpSocket) (nread : ℕ) : TcpSocket :=
  let r := s.scanned cfg nread
  let pos := s.readBufferPos + nread
  if r.overlong then ({ s with log := r.log, readBufferPos := pos }).doClose
  else
    { s with
      log := r.log
      readBuffer := if r.readPos < pos then
        s.readBuffer.move 0 r.readPos (pos - r.readPos) else s.readBuffer
      readBufferPos := pos - r.readPos }

/-- `do_read`. -/
def doRead (s : TcpSocket) : TcpSocket :=
  if s.tcpSockOpen then
    if s.readBufferPos < cfg.kReadBufferSize then
      { s with reads := s.reads ++ [⟨s.readBufferPos, cfg.kReadBufferSize - s.readBufferPos⟩] }
    else
      let s := s.processData cfg 0
      if cfg.kReadBufferSize ≤ s.readBufferPos then s.doClose else s
  else s

/-- The completion handler of `async_read_some` with the bytes `chunk`, stored from `off` on. -/
def readOk (s : TcpSocket) (off : ℕ) (chunk : List UInt8) : TcpSocket :=
  let s : TcpSocket := { s with
    readBuffer := s.readBuffer.write off chunk
    log := s.log ++ [.received chunk] }
  (s.processData cfg chunk.length).doRead cfg

/-- The completion handler of `async_read_some`, with an error. -/
def readError (s : TcpSocket) : TcpSocket := ({ s with cacheBuffer := [] }).doClose

/-! ## Connecting -/

/-- `init_read`. -/
def initRead (s : TcpSocket) : TcpSocket :=
  if s.connection then (({ s with socketStatus := .opened }).processEvent .connect).doRead cfg
  else s

/-- `TcpConnection::connect` when the host resolves. A host that does not resolve changes nothing
but `passive_mode`. -/
def connect (s : TcpSocket) (resolved : Bool) : TcpSocket :=
  let s := { s with passiveMode := false }
  if resolved then
    { s.closeTcpSock with
      tcpSockOpen := true, socketStatus := .connecting, connects := s.connects + 1 }
  else s

/-- The completion handler of `async_connect`. -/
def connectDone (s : TcpSocket) (ok : Bool) : TcpSocket :=
  if ok then s.initRead cfg else { s.closeTcpSock with socketStatus := .closed }

/-- `TcpConnection::enable_reconnect`. -/
def enableReconnect (s : TcpSocket) : TcpSocket :=
  if s.reconnFlag then s else { s with reconnFlag := true, reconnTimer := true }

/-- `TcpConnection::disable_reconnect`. -/
def disableReconnect (s : TcpSocket) : TcpSocket :=
  { s with reconnFlag := false, reconnTimer := false }

/-- The handler of the reconnect timer. -/
def timerFires (s : TcpSocket) (resolved : Bool) : TcpSocket :=
  if s.isOpen || s.isConnecting then s else s.connect resolved

/-! ## Closing from user code -/

/-- `close`: nothing happens to a socket that is closing or closed, else the handler is posted. -/
def close (s : TcpSocket) : TcpSocket :=
  if s.socketStatus = .closing ∨ s.socketStatus = .closed then s
  else { s with posted := s.posted ++ [.close] }

/-- The handler posted by `close`. Its test of the status comes right after the status was set, so
it always holds. -/
def closeTask (s : TcpSocket) (now : ℕ) : TcpSocket :=
  let s := { s with socketStatus := .closing }
  let s := if s.connection then
      let s := if s.sendBuffer ≠ [] then s.doAsyncWrite now else s
      let s := if s.socketStatus.code ≤ SocketStatus.closing.code then
        s.processEvent .disconnect else s
      let s := ({ s with socketStatus := .closed }).closeTcpSock
      if s.needReconnect then { s with socketStatus := .reconnect } else s.release
    else ({ s with socketStatus := .closed }).closeTcpSock
  { s with readBufferPos := 0 }

/-! ## The step system -/

/-- What can happen next. -/
inductive Action
  /-- The listener's worker runs `init_read` on a socket it has accepted. -/
  | initRead
  | connect (resolved : Bool)
  | connectDone (ok : Bool)
  /-- The `i`-th outstanding read completes, with bytes or with an error. -/
  | readDone (i : ℕ) (chunk : Option (List UInt8))
  /-- A thread makes the append of `msend`. -/
  | msend (args : List Arg)
  /-- A thread that has made its append posts `do_send`. -/
  | post
  /-- The io context runs the oldest posted handler. -/
  | runTask (now : ℕ)
  /-- The operating system takes `n` more bytes of the `i`-th outstanding write. -/
  | take (i n : ℕ)
  /-- The `i`-th outstanding write completes. Without an error it has been taken whole. -/
  | writeDone (i : ℕ) (ok : Bool) (now : ℕ)
  | close
  | enableReconnect
  | disableReconnect
  | timer (resolved : Bool)
  deriving DecidableEq, Repr

/-- One step, or `none` when the action cannot happen. -/
def step (s : TcpSocket) : Action → Option TcpSocket
  | .initRead =>
    if s.socketStatus = .init ∧ s.tcpSockOpen then some (s.initRead cfg) else none
  | .connect resolved => some (s.connect resolved)
  | .connectDone ok =>
    if 0 < s.connects then
      some (({ s with connects := s.connects - 1 }).connectDone cfg ok) else none
  | .readDone i chunk =>
    match s.reads[i]? with
    | none => none
    | some op =>
      let s := { s with reads := s.reads.eraseIdx i }
      match chunk with
      | none => some s.readError
      | some chunk =>
        if 0 < chunk.length ∧ chunk.length ≤ op.room then some (s.readOk cfg op.off chunk) else none
  | .msend args => some (s.msend args)
  | .post =>
    if 0 < s.posting then some ({ s with posting := s.posting - 1 }).doSend else none
  | .runTask now =>
    match s.posted with
    | [] => none
    | .doSend :: rest => some (({ s with posted := rest }).doSendTask now)
    | .close :: rest => some (({ s with posted := rest }).closeTask now)
  | .take i n =>
    match s.writes[i]? with
    | none => none
    | some w =>
      if w.live then
        some { s with
          writes := s.writes.set i { w with sent := w.sent + min n w.rest.length }
          wire := s.wire ++ w.rest.take n }
      else none
  | .writeDone i ok now =>
    match s.writes[i]? with
    | none => none
    | some w =>
      let s := { s with writes := s.writes.eraseIdx i }
      if ok then (if w.rest = [] then some (s.writeOk now) else none) else some s.writeError
  | .close => some s.close
  | .enableReconnect => some s.enableReconnect
  | .disableReconnect => some s.disableReconnect
  | .timer resolved => if s.reconnTimer then some (s.timerFires resolved) else none

/-- The socket as a step system. -/
def system : StepSystem TcpSocket Action := ⟨step cfg⟩

@[simp] theorem system_step (s : TcpSocket) (a : Action) :
    (system cfg).step s a = s.step cfg a := rfl

/-! ## What the operations do

One equation per operation, with its tests resolved. Everything later is derived from these. -/

/-- The events `do_close` delivers before it looks at the reconnect flag: none when the socket was
already waiting to reconnect. -/
def closingEvents (status : SocketStatus) : List Entry :=
  if status = .reconnect then [] else [.event .disconnect]

/-- What `do_close` does to a socket that is neither closing nor closed. -/
theorem doClose_eq (s : TcpSocket) : s.doClose =
    if s.socketStatus = .closing ∨ s.socketStatus = .closed then s
    else if s.connection then
      if s.needReconnect then
        { s with
          socketStatus := .reconnect, sendBuffer := [], cacheBuffer := [], readBufferPos := 0
          log := s.log ++ closingEvents s.socketStatus }
      else
        { s.closeTcpSock with
          socketStatus := .closed, sendBuffer := [], cacheBuffer := [], readBufferPos := 0
          connection := false, reconnTimer := false
          log := s.log ++ closingEvents s.socketStatus ++ [.event .release] }
    else { s.closeTcpSock with socketStatus := .closed, readBufferPos := 0 } := by
  rcases hst : s.socketStatus <;> cases hc : s.connection <;> cases hf : s.reconnFlag <;>
    cases hp : s.passiveMode <;>
    simp [doClose, hst, hc, hf, hp, closingEvents, needReconnect, closeTcpSock, release,
      processEvent, SocketStatus.code]

theorem closeTask_eq (s : TcpSocket) (now : ℕ) : s.closeTask now =
    if s.connection then
      let w := if s.sendBuffer ≠ [] then s.doAsyncWrite now else s
      if s.needReconnect then
        { w.closeTcpSock with
          socketStatus := .reconnect, readBufferPos := 0, log := s.log ++ [.event .disconnect] }
      else
        { w.closeTcpSock with
          socketStatus := .closed, readBufferPos := 0, connection := false, reconnTimer := false
          log := s.log ++ [.event .disconnect, .event .release] }
    else { s.closeTcpSock with socketStatus := .closed, readBufferPos := 0 } := by
  rcases s with ⟨st, c, _, _, _, sb, cb, _, f, p, _, _, _, _, _, _, _, _, _, _, _⟩
  cases c <;> cases f <;> cases p <;> by_cases hsb : sb = [] <;> by_cases hcb : cb = [] <;>
    simp [closeTask, hsb, hcb, needReconnect, closeTcpSock, release, processEvent,
      SocketStatus.code, doAsyncWrite, asyncWrite]

theorem msend_refused {s : TcpSocket} (h : s.isOpen = false) (args : List Arg) :
    s.msend args = { s with results := s.results ++ [-1] } := by
  rw [msend, if_neg (by rw [h]; exact Bool.false_ne_true)]

/-- With nothing waiting there is no last write, and the socket waits to be connected again. -/
theorem closeTask_reconnect {s : TcpSocket} (hsend : s.sendBuffer = [])
    (hconn : s.connection = true) (hre : s.needReconnect = true) (now : ℕ) :
    s.closeTask now = { s.closeTcpSock with
      socketStatus := .reconnect, readBufferPos := 0, log := s.log ++ [.event .disconnect] } := by
  rw [closeTask_eq, if_pos hconn]
  simp only [hsend, hre, ne_eq, not_true_eq_false, ↓reduceIte]

/-- With nothing waiting and no reconnect wanted, the connection is released. -/
theorem closeTask_release {s : TcpSocket} (hsend : s.sendBuffer = [])
    (hconn : s.connection = true) (hre : s.needReconnect = false) (now : ℕ) :
    s.closeTask now = { s.closeTcpSock with
      socketStatus := .closed, readBufferPos := 0, connection := false, reconnTimer := false
      log := s.log ++ [.event .disconnect, .event .release] } := by
  rw [closeTask_eq, if_pos hconn]
  simp only [hsend, hre, ne_eq, not_true_eq_false, ↓reduceIte, Bool.false_eq_true]

theorem closeTask_released {s : TcpSocket} (hconn : s.connection = false) (now : ℕ) :
    s.closeTask now
      = { s.closeTcpSock with socketStatus := .closed, readBufferPos := 0 } := by
  rw [closeTask_eq, if_neg (by rw [hconn]; exact Bool.false_ne_true)]

theorem doAsyncWrite_idle {s : TcpSocket} (hs : s.sendBuffer = []) (hc : s.cacheBuffer = [])
    (now : ℕ) : s.doAsyncWrite now = { s with isWritting := false } := by
  simp [doAsyncWrite, hs, hc]

theorem doAsyncWrite_swap {s : TcpSocket} (hs : s.sendBuffer ≠ []) (hc : s.cacheBuffer = [])
    (now : ℕ) : s.doAsyncWrite now =
      ({ s with sendBuffer := [], cacheBuffer := s.sendBuffer, isWritting := true }).asyncWrite
        now := by
  simp [doAsyncWrite, hs, hc]

theorem doAsyncWrite_again {s : TcpSocket} (hc : s.cacheBuffer ≠ []) (now : ℕ) :
    s.doAsyncWrite now = ({ s with isWritting := true }).asyncWrite now := by
  simp [doAsyncWrite, hc]

/-- Starting a write touches nothing but the buffers, the flag and what is in flight. -/
theorem doAsyncWrite_frame (s : TcpSocket) (now : ℕ) : ∃ sb cb flag ws issued wire,
    s.doAsyncWrite now = { s with
      sendBuffer := sb, cacheBuffer := cb, isWritting := flag, writes := ws, issued := issued
      wire := wire } := by
  by_cases hc : s.cacheBuffer = []
  · by_cases hs : s.sendBuffer = []
    · exact ⟨_, _, _, _, _, _, doAsyncWrite_idle hs hc now⟩
    · exact ⟨_, _, _, _, _, _, doAsyncWrite_swap hs hc now⟩
  · exact ⟨_, _, _, _, _, _, doAsyncWrite_again hc now⟩

@[simp] theorem log_doAsyncWrite (s : TcpSocket) (now : ℕ) : (s.doAsyncWrite now).log = s.log := by
  obtain ⟨_, _, _, _, _, _, h⟩ := s.doAsyncWrite_frame now
  rw [h]

@[simp] theorem connection_doAsyncWrite (s : TcpSocket) (now : ℕ) :
    (s.doAsyncWrite now).connection = s.connection := by
  obtain ⟨_, _, _, _, _, _, h⟩ := s.doAsyncWrite_frame now
  rw [h]

@[simp] theorem socketStatus_doAsyncWrite (s : TcpSocket) (now : ℕ) :
    (s.doAsyncWrite now).socketStatus = s.socketStatus := by
  obtain ⟨_, _, _, _, _, _, h⟩ := s.doAsyncWrite_frame now
  rw [h]

@[simp] theorem appended_doAsyncWrite (s : TcpSocket) (now : ℕ) :
    (s.doAsyncWrite now).appended = s.appended := by
  obtain ⟨_, _, _, _, _, _, h⟩ := s.doAsyncWrite_frame now
  rw [h]

/-! ### The loop of `process_data` -/

variable {cfg} {m : Memory UInt8} {pos readPos fuel : ℕ} {log : List Entry}

theorem scan_exit (h : pos ≤ readPos) (fuel : ℕ) :
    scan cfg m pos fuel log readPos = ⟨log, readPos, false⟩ := by
  cases fuel with
  | zero => rfl
  | succ fuel => rw [scan, if_neg (by omega)]

theorem scan_stop {pkgLen : ℤ} (h : readPos < pos)
    (hlen : cfg.handlePackage log (m.read readPos pos) = pkgLen)
    (hstop : pkgLen ≤ 0 ∨ (pos : ℤ) - readPos < pkgLen) :
    scan cfg m pos (fuel + 1) log readPos = ⟨log ++ [.package (m.read readPos pos)], readPos,
      decide ((cfg.kReadBufferSize : ℤ) < pkgLen)⟩ := by
  subst hlen
  rw [scan, if_pos h]
  exact if_pos hstop

/-- A round that finds a complete package of `n` bytes delivers it and goes on behind it. -/
theorem scan_take {n : ℕ} (h : readPos < pos)
    (hlen : cfg.handlePackage log (m.read readPos pos) = n) (hpos : 0 < n)
    (hfit : readPos + n ≤ pos) :
    scan cfg m pos (fuel + 1) log readPos = scan cfg m pos fuel
      (log ++ [.package (m.read readPos pos), .data (m.read readPos n)]) (readPos + n) := by
  rw [scan, if_pos h]
  simp only [hlen]
  rw [if_neg (by omega), Int.toNat_natCast, List.append_assoc, List.singleton_append]

theorem scan_cases (cfg : Config) (m : Memory UInt8) (pos : ℕ) (log : List Entry) (readPos : ℕ) :
    pos ≤ readPos ∨
    (readPos < pos ∧ ∃ pkgLen : ℤ, cfg.handlePackage log (m.read readPos pos) = pkgLen ∧
      (pkgLen ≤ 0 ∨ (pos : ℤ) - readPos < pkgLen)) ∨
    (readPos < pos ∧ ∃ n : ℕ, cfg.handlePackage log (m.read readPos pos) = n ∧ 0 < n ∧
      readPos + n ≤ pos) := by
  rcases Nat.lt_or_ge readPos pos with h | h
  · right
    by_cases hp : 0 < cfg.handlePackage log (m.read readPos pos)
    · obtain ⟨n, hn⟩ := Int.eq_ofNat_of_zero_le (Int.le_of_lt hp)
      rcases Nat.lt_or_ge pos (readPos + n) with hbig | hfit
      · exact .inl ⟨h, n, hn, .inr (by omega)⟩
      · exact .inr ⟨h, n, hn, by omega, hfit⟩
    · exact .inl ⟨h, _, rfl, .inl (by omega)⟩
  · exact .inl h

theorem processData_overlong {s : TcpSocket} {nread : ℕ}
    (h : (s.scanned cfg nread).overlong = true) :
    s.processData cfg nread = ({ s with
      log := (s.scanned cfg nread).log
      readBufferPos := s.readBufferPos + nread }).doClose := by
  rw [processData, if_pos h]

theorem processData_fits {s : TcpSocket} {nread : ℕ}
    (h : (s.scanned cfg nread).overlong = false) :
    s.processData cfg nread =
      let r := s.scanned cfg nread
      let pos := s.readBufferPos + nread
      { s with
        log := r.log
        readBuffer := if r.readPos < pos then
          s.readBuffer.move 0 r.readPos (pos - r.readPos) else s.readBuffer
        readBufferPos := pos - r.readPos } := by
  rw [processData, h]
  rfl

/-! ### Steps, by what happened

`step` as a relation with one constructor for each thing that can happen, so that a proof about a
step is a case analysis with names. -/

/-- The step `a` from `s` to the given state. -/
inductive Fires (cfg : Config) (s : TcpSocket) : Action → TcpSocket → Prop
  | initRead (hinit : s.socketStatus = .init) (hopen : s.tcpSockOpen = true) :
    Fires cfg s .initRead (s.initRead cfg)
  | connect (resolved : Bool) : Fires cfg s (.connect resolved) (s.connect resolved)
  | connectDone (ok : Bool) (hpending : 0 < s.connects) :
    Fires cfg s (.connectDone ok)
      (({ s with connects := s.connects - 1 }).connectDone cfg ok)
  | readOk (i : ℕ) (op : ReadOp) (chunk : List UInt8) (hop : s.reads[i]? = some op)
    (hchunk : 0 < chunk.length) (hroom : chunk.length ≤ op.room) :
    Fires cfg s (.readDone i (some chunk))
      (({ s with reads := s.reads.eraseIdx i }).readOk cfg op.off chunk)
  | readError (i : ℕ) (op : ReadOp) (hop : s.reads[i]? = some op) :
    Fires cfg s (.readDone i none) ({ s with reads := s.reads.eraseIdx i }).readError
  | msend (args : List Arg) : Fires cfg s (.msend args) (s.msend args)
  | post (hposting : 0 < s.posting) :
    Fires cfg s .post ({ s with posting := s.posting - 1 }).doSend
  | doSend (now : ℕ) (rest : List Task) (hposted : s.posted = .doSend :: rest) :
    Fires cfg s (.runTask now) (({ s with posted := rest }).doSendTask now)
  | closeTask (now : ℕ) (rest : List Task) (hposted : s.posted = .close :: rest) :
    Fires cfg s (.runTask now) (({ s with posted := rest }).closeTask now)
  | take (i n : ℕ) (w : WriteOp) (hw : s.writes[i]? = some w) (hlive : w.live = true) :
    Fires cfg s (.take i n)
      { s with
        writes := s.writes.set i { w with sent := w.sent + min n w.rest.length }
        wire := s.wire ++ w.rest.take n }
  | writeOk (i now : ℕ) (w : WriteOp) (hw : s.writes[i]? = some w) (hrest : w.rest = []) :
    Fires cfg s (.writeDone i true now) (({ s with writes := s.writes.eraseIdx i }).writeOk now)
  | writeError (i now : ℕ) (w : WriteOp) (hw : s.writes[i]? = some w) :
    Fires cfg s (.writeDone i false now) ({ s with writes := s.writes.eraseIdx i }).writeError
  | close : Fires cfg s .close s.close
  | enableReconnect : Fires cfg s .enableReconnect s.enableReconnect
  | disableReconnect : Fires cfg s .disableReconnect s.disableReconnect
  | timer (resolved : Bool) (hrun : s.reconnTimer = true) :
    Fires cfg s (.timer resolved) (s.timerFires resolved)

theorem fires_of_step {s t : TcpSocket} {a : Action} (h : (system cfg).step s a = some t) :
    Fires cfg s a t := by
  rw [system_step] at h
  cases a with
  | initRead =>
    simp only [step, Option.ite_none_right_eq_some, Option.some.injEq] at h
    obtain ⟨⟨hinit, hopen⟩, rfl⟩ := h
    exact .initRead hinit hopen
  | connect resolved =>
    obtain rfl := Option.some.inj h
    exact .connect resolved
  | connectDone ok =>
    simp only [step, Option.ite_none_right_eq_some, Option.some.injEq] at h
    obtain ⟨hpending, rfl⟩ := h
    exact .connectDone ok hpending
  | readDone i chunk =>
    simp only [step] at h
    split at h
    · exact absurd h (by simp)
    · rename_i op hop
      split at h
      · obtain rfl := Option.some.inj h
        exact .readError i op hop
      · rename_i bytes
        simp only [Option.ite_none_right_eq_some, Option.some.injEq] at h
        obtain ⟨⟨hchunk, hroom⟩, rfl⟩ := h
        exact .readOk i op bytes hop hchunk hroom
  | msend args =>
    obtain rfl := Option.some.inj h
    exact .msend args
  | post =>
    simp only [step, Option.ite_none_right_eq_some, Option.some.injEq] at h
    obtain ⟨hposting, rfl⟩ := h
    exact .post hposting
  | runTask now =>
    simp only [step] at h
    split at h
    · exact absurd h (by simp)
    · rename_i rest hposted
      obtain rfl := Option.some.inj h
      exact .doSend now rest hposted
    · rename_i rest hposted
      obtain rfl := Option.some.inj h
      exact .closeTask now rest hposted
  | take i n =>
    simp only [step] at h
    split at h
    · exact absurd h (by simp)
    · rename_i w hw
      simp only [Option.ite_none_right_eq_some, Option.some.injEq] at h
      obtain ⟨hlive, rfl⟩ := h
      exact .take i n w hw hlive
  | writeDone i ok now =>
    simp only [step] at h
    split at h
    · exact absurd h (by simp)
    · rename_i w hw
      cases ok with
      | true =>
        simp only [↓reduceIte, Option.ite_none_right_eq_some, Option.some.injEq] at h
        obtain ⟨hrest, rfl⟩ := h
        exact .writeOk i now w hw hrest
      | false =>
        obtain rfl := Option.some.inj h
        exact .writeError i now w hw
  | close =>
    obtain rfl := Option.some.inj h
    exact .close
  | enableReconnect =>
    obtain rfl := Option.some.inj h
    exact .enableReconnect
  | disableReconnect =>
    obtain rfl := Option.some.inj h
    exact .disableReconnect
  | timer resolved =>
    simp only [step, Option.ite_none_right_eq_some, Option.some.injEq] at h
    obtain ⟨hrun, rfl⟩ := h
    exact .timer resolved hrun

/-! ## The history only grows -/

section History

variable {s t : TcpSocket} {l : List Entry}

theorem prefix_log_doClose (h : l <+: s.log) : l <+: s.doClose.log := by
  rw [doClose_eq]
  split_ifs
  · exact h
  · exact h.trans (List.prefix_append _ _)
  · exact h.trans ((List.prefix_append _ _).trans (List.prefix_append _ _))
  · exact h

theorem prefix_log_scan (m : Memory UInt8) (pos fuel readPos : ℕ) (h : l <+: log) :
    l <+: (scan cfg m pos fuel log readPos).log := by
  induction fuel generalizing log readPos with
  | zero => exact h
  | succ fuel ih =>
    rcases scan_cases cfg m pos log readPos with hx | ⟨hx, _, hlen, hstop⟩ | ⟨hx, n, hlen, hn, hfit⟩
    · rw [scan_exit hx]
      exact h
    · rw [scan_stop hx hlen hstop]
      exact h.trans (List.prefix_append _ _)
    · rw [scan_take hx hlen hn hfit]
      exact ih _ (h.trans (List.prefix_append _ _))

theorem prefix_log_scanned (nread : ℕ) (h : l <+: s.log) : l <+: (s.scanned cfg nread).log := by
  rw [scanned]
  split_ifs
  · exact prefix_log_scan _ _ _ _ h
  · exact h

/-- What the loop recorded is part of the history, whether or not it closed the socket. -/
theorem prefix_log_processData (nread : ℕ) (h : l <+: (s.scanned cfg nread).log) :
    l <+: (s.processData cfg nread).log := by
  cases hover : (s.scanned cfg nread).overlong with
  | true =>
    rw [processData_overlong hover]
    exact prefix_log_doClose h
  | false =>
    rw [processData_fits hover]
    exact h

theorem prefix_log_doRead (h : l <+: s.log) : l <+: (s.doRead cfg).log := by
  simp only [doRead]
  split_ifs
  · exact h
  · exact prefix_log_doClose (prefix_log_processData 0 (prefix_log_scanned 0 h))
  · exact prefix_log_processData 0 (prefix_log_scanned 0 h)
  · exact h

theorem prefix_log_readOk (off : ℕ) (chunk : List UInt8) (h : l <+: s.log) :
    l <+: (s.readOk cfg off chunk).log :=
  prefix_log_doRead (prefix_log_processData _ (prefix_log_scanned _
    (h.trans (List.prefix_append _ _))))

theorem prefix_log_closeTask (now : ℕ) (h : l <+: s.log) : l <+: (s.closeTask now).log := by
  rw [closeTask_eq]
  split_ifs
  · exact h.trans (List.prefix_append _ _)
  · exact h.trans (List.prefix_append _ _)
  · exact h.trans (List.prefix_append _ _)
  · exact h.trans (List.prefix_append _ _)
  · exact h

theorem prefix_log_doAsyncWrite (now : ℕ) (h : l <+: s.log) : l <+: (s.doAsyncWrite now).log := by
  rw [log_doAsyncWrite]
  exact h

theorem prefix_log_initRead (h : l <+: s.log) : l <+: (s.initRead cfg).log := by
  rw [initRead]
  split_ifs
  · exact prefix_log_doRead (h.trans (List.prefix_append _ _))
  · exact h

theorem prefix_log_connect (resolved : Bool) (h : l <+: s.log) :
    l <+: (s.connect resolved).log := by
  simp only [connect]
  split_ifs <;> exact h

/-- **No step rewrites the history.** -/
theorem log_prefix_step {a : Action} (hstep : (system cfg).step s a = some t) :
    s.log <+: t.log := by
  have h : s.log <+: s.log := List.prefix_refl _
  cases fires_of_step hstep with
  | initRead => exact prefix_log_initRead h
  | connect resolved => exact prefix_log_connect resolved h
  | connectDone ok =>
    rw [connectDone]
    split_ifs
    · exact prefix_log_initRead h
    · exact h
  | readOk => exact prefix_log_readOk _ _ h
  | readError => exact prefix_log_doClose h
  | msend args =>
    rw [msend]
    split_ifs <;> exact h
  | post => exact h
  | doSend now =>
    rw [doSendTask]
    split_ifs
    · exact h
    · exact prefix_log_doAsyncWrite now h
  | closeTask now => exact prefix_log_closeTask now h
  | take => exact h
  | writeOk i now =>
    rw [writeOk, log_doAsyncWrite]
    split_ifs
    · exact List.prefix_append _ _
    · exact h
  | writeError => exact prefix_log_doClose h
  | close =>
    rw [close]
    split_ifs <;> exact h
  | enableReconnect =>
    rw [enableReconnect]
    split_ifs <;> exact h
  | disableReconnect => exact h
  | timer resolved =>
    rw [timerFires]
    split_ifs
    · exact h
    · exact prefix_log_connect resolved h

theorem log_prefix_run {as : List Action} (hrun : (system cfg).run s as = some t) :
    s.log <+: t.log := by
  induction as generalizing s with
  | nil => exact Option.some.inj hrun ▸ List.prefix_refl _
  | cons a as ih =>
    obtain ⟨u, hstep, hrest⟩ := StepSystem.run_cons_eq_some.mp hrun
    exact (log_prefix_step hstep).trans (ih hrest)

end History

end TcpSocket

end Knet.Tcp
