import Knet.Tcp.Socket

/-!
# The TLS socket

`TlsSocket` is a copy of `TcpSocket` with a handshake between the connection being made and the
first read. Everything but `init_read` and the completion of the handshake is the code of
`TcpSocket`, so that a state here is a state of that socket together with the two members that the
handshake needs.

`init_read` starts a handshake instead of opening the socket, unless one has succeeded before. When
the handshake succeeds, the connection is told `EVT_CONNECT`, by its own `handle_event` and not
through `process_event`, and the first read is started; `socket_status` is left as it was. The first
successful handshake of a socket therefore always leaves it connected and not open.
-/

namespace Knet.Tls

open Knet.Tcp

/-- `kReadBufferSize` of `TlsSocket`. -/
def kReadBufferSize : ℕ := 1024 * 8

/-- The socket of a connection with the given `handle_package`. -/
def config (handlePackage : List Entry → List UInt8 → ℤ) : Config :=
  ⟨kReadBufferSize, handlePackage⟩

/-- The members of a TLS socket. `tcpSockOpen` stands for `sslsock.lowest_layer().is_open()`. -/
structure TlsSocket where
  /-- The members that `TcpSocket` has too. -/
  sock : TcpSocket := {}
  /-- `ssl_shakehand`. -/
  sslShakehand : Bool := false
  /-- The outstanding `async_handshake` operations. -/
  handshakes : ℕ := 0

namespace TlsSocket

variable (cfg : Config)

/-- `handshake`: the operation is started. -/
def handshake (s : TlsSocket) : TlsSocket := { s with handshakes := s.handshakes + 1 }

/-- `init_read`. -/
def initRead (s : TlsSocket) : TlsSocket :=
  if s.sock.connection then
    if s.sslShakehand then { s with sock := s.sock.initRead cfg } else s.handshake
  else s

/-- The completion handler of `async_connect`. -/
def connectDone (s : TlsSocket) (ok : Bool) : TlsSocket :=
  if ok then s.initRead cfg else { s with sock := s.sock.connectDone cfg false }

/-- The completion handler of `async_handshake`. After a success it goes through `connection`
without a test; on a socket whose connection has been released there is no state after that. -/
def handshakeDone (s : TlsSocket) (ok : Bool) : Option TlsSocket :=
  if ok then
    if s.sock.connection then
      some { s with
        sslShakehand := true
        sock := ({ s.sock with
          log := s.sock.log ++ [.handled .connect] } : TcpSocket).doRead cfg }
    else none
  else some { s with sock := s.sock.closeTcpSock }

/-- What can happen next: the actions of a plain socket, and the end of a handshake. -/
inductive Action
  | base (a : TcpSocket.Action)
  | handshakeDone (ok : Bool)
  deriving DecidableEq, Repr

/-- One step. The listener calls `init_read` once, before there has been any handshake. -/
def step (s : TlsSocket) : Action → Option TlsSocket
  | .base .initRead =>
    if s.sock.socketStatus = .init ∧ s.sock.tcpSockOpen ∧ s.handshakes = 0 ∧ !s.sslShakehand then
      some (s.initRead cfg) else none
  | .base (.connectDone ok) =>
    if 0 < s.sock.connects then
      some (({ s with sock := { s.sock with connects := s.sock.connects - 1 } }).connectDone cfg ok)
    else none
  | .base a => (s.sock.step cfg a).map fun k ↦ { s with sock := k }
  | .handshakeDone ok =>
    if 0 < s.handshakes then ({ s with handshakes := s.handshakes - 1 }).handshakeDone cfg ok
    else none

/-- The socket as a step system. -/
def system : StepSystem TlsSocket Action := ⟨step cfg⟩

@[simp] theorem system_step (s : TlsSocket) (a : Action) :
    (system cfg).step s a = s.step cfg a := rfl

variable {cfg} in
theorem step_base {s : TlsSocket} {a : TcpSocket.Action} (hinit : a ≠ .initRead)
    (hdone : a ≠ .connectDone true) :
    s.step cfg (.base a) = (s.sock.step cfg a).map fun k ↦ { s with sock := k } := by
  cases a with
  | initRead => exact absurd rfl hinit
  | connectDone ok =>
    cases ok with
    | true => exact absurd rfl hdone
    | false =>
      simp only [step, TcpSocket.step]
      split_ifs <;> rfl
  | _ => rfl

/-! ## The status protocol -/

/-- What a connection hears, whether or not its user's handler was asked first. -/
def heard : List Entry → List Entry
  | [] => []
  | .event evt :: log => .event evt :: heard log
  | .handled evt :: log => .event evt :: heard log
  | .data bytes :: log => .data bytes :: heard log
  | _ :: log => heard log

/-- Whether the connection has heard `EVT_CONNECT` and nothing since that ends the session. -/
def inSession (log : List Entry) : Bool :=
  (heard log).foldl (fun b e ↦
    if e = .event .connect then true
    else if e = .event .disconnect ∨ e = .event .release then false else b) false

/-- A connected socket is open, and `msend` accepts what it is given. -/
def StatusOk (s : TlsSocket) : Prop :=
  inSession s.sock.log = true →
    s.sock.socketStatus = .opened ∧ s.sock.isOpen = true
      ∧ ∀ args, (s.sock.msend args).appended ≠ s.sock.appended

/-- Two sockets that look the same from outside: status, events and data, and the results of
`msend`. -/
def Same (s : TlsSocket) (t : TcpSocket) : Prop :=
  s.sock.socketStatus = t.socketStatus ∧ heard s.sock.log = heard t.log
    ∧ s.sock.results = t.results

/-- The steps that belong to the handshake. -/
def Action.IsHandshake : Action → Prop
  | .base .initRead => True
  | .base (.connectDone true) => True
  | .handshakeDone _ => True
  | _ => False

/-- The step of a plain socket that a step stands for; the end of a handshake stands for the
`init_read` that the plain socket runs at once. -/
def Action.StandsFor : Action → TcpSocket.Action → Prop
  | .base a, b => b = a
  | .handshakeDone ok, b => ok = true ∧ (b = .initRead ∨ b = .connectDone true)

/-- The run is a run of a plain socket, when the steps of the handshake are erased. -/
def IsTcpRun (s : TlsSocket) (t : TcpSocket) (as : List Action) : Prop :=
  (system cfg).Matched (TcpSocket.system cfg) Same Action.IsHandshake Action.StandsFor s t as

/-! ## Before the first successful handshake -/

variable {cfg} {s s' : TlsSocket} {t : TcpSocket}

/-- What holds of a socket no handshake of which has succeeded: it has nothing to read or to write,
is not open, and its connection has not heard of a connect. -/
structure Unshaken (s : TlsSocket) : Prop where
  shakehand : s.sslShakehand = false
  status : s.sock.socketStatus ≠ .opened
  reads : s.sock.reads = []
  writes : s.sock.writes = []
  posting : s.sock.posting = 0
  posted : ∀ x ∈ s.sock.posted, x = .close
  sendBuffer : s.sock.sendBuffer = []
  pos : s.sock.readBufferPos = 0
  log : inSession s.sock.log = false

theorem heard_append (log log' : List Entry) : heard (log ++ log') = heard log ++ heard log' := by
  induction log with
  | nil => rfl
  | cons e log ih => cases e <;> simp [heard, ih]

theorem inSession_append_closing {log : List Entry} {evt : NetEvent}
    (h : inSession log = false) (hevt : evt ≠ .connect) :
    inSession (log ++ [.event evt]) = false := by
  rw [inSession] at h
  rw [inSession, heard_append, List.foldl_append, h]
  cases evt <;> simp_all [heard]

/-- The plain socket that such a socket is compared with. It may still wait for the connect that is
long done here, and its socket may be open where a failed handshake has closed it. -/
def Related (s : TlsSocket) (t : TcpSocket) : Prop :=
  Unshaken s ∧ ∃ isOpen connects, s.sock.connects ≤ connects
    ∧ t = { s.sock with tcpSockOpen := isOpen, connects := connects }

theorem Related.same (h : Related s t) : Same s t := by
  obtain ⟨-, isOpen, connects, -, rfl⟩ := h
  exact ⟨rfl, rfl, rfl⟩

theorem Unshaken.statusOk (h : Unshaken s) : StatusOk s := by
  intro hin
  rw [h.log] at hin
  exact absurd hin (by simp)

theorem Related.connect (h : Related s t) (resolved : Bool) :
    Related { s with sock := s.sock.connect resolved } (t.connect resolved) := by
  obtain ⟨hun, isOpen, connects, hle, rfl⟩ := h
  cases resolved with
  | true =>
    have hun' : Unshaken { s with sock := s.sock.connect true } :=
      { hun with
        status := by simp [TcpSocket.connect]
        writes := by simp [TcpSocket.connect, TcpSocket.closeTcpSock, hun.writes] }
    exact ⟨hun', true, connects + 1, Nat.succ_le_succ hle, rfl⟩
  | false => exact ⟨{ hun with }, isOpen, connects, hle, rfl⟩

/-- The task posted by `close` does the same to both: there is nothing left to write. -/
theorem Related.closeTask (h : Related s t) (now : ℕ) :
    Related { s with sock := s.sock.closeTask now } (t.closeTask now) := by
  obtain ⟨hun, isOpen, connects, hle, rfl⟩ := h
  have hsend := hun.sendBuffer
  have hdisc : inSession (s.sock.log ++ [.event .disconnect]) = false :=
    inSession_append_closing hun.log (by simp)
  have hrel : inSession (s.sock.log ++ [.event .disconnect, .event .release]) = false := by
    have := inSession_append_closing hdisc (show NetEvent.release ≠ .connect by simp)
    rwa [List.append_assoc] at this
  have hwrites : (s.sock.writes.map fun w ↦ { w with live := false }) = [] := by
    rw [hun.writes, List.map_nil]
  cases hconn : s.sock.connection with
  | true =>
    cases hre : s.sock.needReconnect with
    | true =>
      rw [TcpSocket.closeTask_reconnect hsend hconn hre,
        TcpSocket.closeTask_reconnect (by exact hsend)
        (by exact hconn) (by exact hre)]
      exact ⟨⟨hun.shakehand, by simp, hun.reads, hwrites, hun.posting, hun.posted, hsend, rfl,
        hdisc⟩, false, connects, hle, rfl⟩
    | false =>
      rw [TcpSocket.closeTask_release hsend hconn hre, TcpSocket.closeTask_release (by exact hsend)
        (by exact hconn) (by exact hre)]
      exact ⟨⟨hun.shakehand, by simp, hun.reads, hwrites, hun.posting, hun.posted, hsend, rfl,
        hrel⟩, false, connects, hle, rfl⟩
  | false =>
    rw [TcpSocket.closeTask_released hconn, TcpSocket.closeTask_released (by exact hconn)]
    exact ⟨⟨hun.shakehand, by simp, hun.reads, hwrites, hun.posting, hun.posted, hsend, rfl,
      hun.log⟩, false, connects, hle, rfl⟩

theorem initRead_unshaken (h : s.sslShakehand = false) :
    s.initRead cfg = if s.sock.connection then s.handshake else s := by
  rw [initRead, h]
  rfl

/-- A step of the handshake changes nothing that the comparison looks at. -/
theorem Related.hide (isOpen : Bool) {n : ℕ} (m : ℕ) (h : Related s t) (hn : n ≤ s.sock.connects) :
    Related ⟨{ s.sock with tcpSockOpen := isOpen, connects := n }, s.sslShakehand, m⟩ t := by
  obtain ⟨hun, o, c, hle, rfl⟩ := h
  exact ⟨{ hun with }, o, c, Nat.le_trans hn hle, rfl⟩

/-- A step of the plain part, other than the two that lead to the handshake. -/
theorem Related.base {a : TcpSocket.Action} {sock : TcpSocket} (h : Related s t)
    (hstep : (TcpSocket.system cfg).step s.sock a = some sock) (hinit : a ≠ .initRead)
    (hdone : a ≠ .connectDone true) :
    ∃ t', (TcpSocket.system cfg).step t a = some t' ∧ Related { s with sock := sock } t' := by
  obtain ⟨hun, isOpen, connects, hle, rfl⟩ := id h
  have hnot : s.sock.isOpen = false := by simp [TcpSocket.isOpen, hun.status]
  cases TcpSocket.fires_of_step hstep with
  | initRead => exact absurd rfl hinit
  | connect resolved => exact ⟨_, rfl, h.connect resolved⟩
  | connectDone ok hpending =>
    cases ok with
    | true => exact absurd rfl hdone
    | false =>
      refine ⟨_, if_pos (by exact Nat.lt_of_lt_of_le hpending hle), ?_⟩
      have hun' : Unshaken { s with
          sock := ({ s.sock with connects := s.sock.connects - 1 } : TcpSocket).connectDone
            cfg false } :=
        { hun with
          status := by simp [TcpSocket.connectDone]
          writes := by simp [TcpSocket.connectDone, TcpSocket.closeTcpSock, hun.writes] }
      exact ⟨hun', false, connects - 1, Nat.sub_le_sub_right hle 1, rfl⟩
  | readOk i op chunk hop => rw [hun.reads] at hop; exact absurd hop (by simp)
  | readError i op hop => rw [hun.reads] at hop; exact absurd hop (by simp)
  | msend args =>
    -- neither of the two is open, so both refuse
    refine ⟨_, rfl, ?_⟩
    rw [TcpSocket.msend_refused hnot,
      TcpSocket.msend_refused (by simp [TcpSocket.isOpen, hun.status])]
    exact ⟨{ hun with }, isOpen, connects, hle, rfl⟩
  | post hposting => rw [hun.posting] at hposting; exact absurd hposting (Nat.lt_irrefl 0)
  | doSend now rest hposted =>
    -- nothing was ever accepted, so the queue holds only the tasks of `close`
    have := hun.posted .doSend (by rw [hposted]; exact List.mem_cons_self)
    exact absurd this (by simp)
  | closeTask now rest hposted =>
    have hrest : Related { s with sock := { s.sock with posted := rest } }
        { s.sock with tcpSockOpen := isOpen, connects := connects, posted := rest } :=
      ⟨{ hun with
        posted := fun x hx ↦ hun.posted x (by rw [hposted]; exact List.mem_cons_of_mem _ hx) },
        isOpen, connects, hle, rfl⟩
    refine ⟨_, ?_, hrest.closeTask now⟩
    simp only [TcpSocket.system_step, TcpSocket.step, hposted]
  | take i n w hw => rw [hun.writes] at hw; exact absurd hw (by simp)
  | writeOk i now w hw => rw [hun.writes] at hw; exact absurd hw (by simp)
  | writeError i now w hw => rw [hun.writes] at hw; exact absurd hw (by simp)
  | close =>
    refine ⟨_, rfl, ?_⟩
    simp only [TcpSocket.close]
    by_cases hst : s.sock.socketStatus = .closing ∨ s.sock.socketStatus = .closed
    · rw [if_pos hst, if_pos hst]
      exact h
    · rw [if_neg hst, if_neg hst]
      refine ⟨{ hun with posted := fun x hx ↦ ?_ }, isOpen, connects, hle, rfl⟩
      rcases List.mem_append.mp hx with hx | hx
      · exact hun.posted x hx
      · exact List.mem_singleton.mp hx
  | enableReconnect =>
    refine ⟨_, rfl, ?_⟩
    simp only [TcpSocket.enableReconnect]
    by_cases hflag : s.sock.reconnFlag = true
    · rw [if_pos hflag, if_pos hflag]
      exact h
    · rw [if_neg hflag, if_neg hflag]
      exact ⟨{ hun with }, isOpen, connects, hle, rfl⟩
  | disableReconnect =>
    exact ⟨_, rfl, ⟨hun.shakehand, hun.status, hun.reads, hun.writes, hun.posting, hun.posted,
      hun.sendBuffer, hun.pos, hun.log⟩, isOpen, connects, hle, rfl⟩
  | timer resolved hrun =>
    -- the timer asks for the status alone, which the two share
    refine ⟨_, if_pos hrun, ?_⟩
    have hnot' : ({ s.sock with tcpSockOpen := isOpen, connects := connects } : TcpSocket).isOpen
        = false := by simp [TcpSocket.isOpen, hun.status]
    rw [TcpSocket.timerFires, TcpSocket.timerFires, hnot, hnot', Bool.false_or, Bool.false_or]
    cases hbusy : s.sock.isConnecting with
    | true =>
      rw [if_pos rfl, if_pos (by exact hbusy)]
      exact h
    | false =>
      rw [if_neg Bool.false_ne_true, if_neg (by rw [← Bool.not_eq_true] at hbusy; exact hbusy)]
      exact h.connect resolved

/-- **One step without a successful handshake** is a step of the handshake that the plain socket
does not see, or the same step of the plain socket. -/
theorem Related.step {a : Action} (h : Related s t) (ha : a ≠ .handshakeDone true)
    (hstep : (system cfg).step s a = some s') :
    (a.IsHandshake ∧ Related s' t) ∨
      ∃ b t', a.StandsFor b ∧ (TcpSocket.system cfg).step t b = some t' ∧ Related s' t' := by
  cases a with
  | handshakeDone ok =>
    cases ok with
    | true => exact absurd rfl ha
    | false =>
      simp only [system, TlsSocket.step, Option.ite_none_right_eq_some] at hstep
      obtain rfl := Option.some.inj hstep.2
      have hclose : s.sock.closeTcpSock = { s.sock with tcpSockOpen := false } := by
        simp [TcpSocket.closeTcpSock, h.1.writes]
      refine .inl ⟨trivial, ?_⟩
      rw [hclose]
      exact h.hide false _ (Nat.le_refl _)
  | base a =>
    by_cases hinit : a = .initRead
    · subst hinit
      simp only [system, TlsSocket.step, Option.ite_none_right_eq_some] at hstep
      obtain rfl := Option.some.inj hstep.2
      refine .inl ⟨trivial, ?_⟩
      rw [initRead_unshaken h.1.shakehand]
      split_ifs
      · exact h.hide _ _ (Nat.le_refl _)
      · exact h
    by_cases hdone : a = .connectDone true
    · subst hdone
      simp only [system, TlsSocket.step, Option.ite_none_right_eq_some] at hstep
      obtain rfl := Option.some.inj hstep.2
      refine .inl ⟨trivial, ?_⟩
      rw [TlsSocket.connectDone, if_pos rfl, initRead_unshaken (by exact h.1.shakehand)]
      split_ifs
      · exact h.hide _ _ (Nat.sub_le _ _)
      · exact h.hide _ _ (Nat.sub_le _ _)
    · right
      obtain ⟨sock, hsock, rfl⟩ : ∃ sock, (TcpSocket.system cfg).step s.sock a = some sock
          ∧ { s with sock := sock } = s' := by
        rw [system_step, step_base hinit hdone] at hstep
        exact Option.map_eq_some_iff.mp hstep
      obtain ⟨t', hstep', hrel⟩ := h.base hsock hinit hdone
      exact ⟨a, t', rfl, hstep', hrel⟩

/-- **The first successful handshake breaks the protocol**: the connection hears `EVT_CONNECT`, and
the socket is not open. -/
theorem Unshaken.not_statusOk {hp : List Entry → List UInt8 → ℤ} (h : Unshaken s)
    (hstep : (system (config hp)).step s (.handshakeDone true) = some s') : ¬StatusOk s' := by
  simp only [system_step, TlsSocket.step, TlsSocket.handshakeDone, Option.ite_none_right_eq_some,
    ↓reduceIte] at hstep
  obtain rfl := Option.some.inj hstep.2.2
  -- nothing has been read yet, so that `do_read` only starts a read
  have hread : ∃ reads, ({ s.sock with
      log := s.sock.log ++ [.handled .connect] } : TcpSocket).doRead (config hp)
      = { s.sock with log := s.sock.log ++ [.handled .connect], reads := reads } := by
    have hroom : s.sock.readBufferPos < (config hp).kReadBufferSize := by
      rw [h.pos]
      exact show 0 < kReadBufferSize by decide
    simp only [TcpSocket.doRead, if_pos hroom]
    split_ifs
    · exact ⟨_, rfl⟩
    · exact ⟨_, rfl⟩
  obtain ⟨reads, hread⟩ := hread
  have hin : inSession (s.sock.log ++ [.handled .connect]) = true := by
    rw [inSession, heard_append, List.foldl_append]
    rfl
  intro hok
  rw [hread] at hok
  exact h.status (hok hin).1

theorem not_throughout_statusOk {hp : List Entry → List UInt8 → ℤ} {as : List Action}
    (h : Related s t) (hmem : .handshakeDone true ∈ as)
    (hrun : (system (config hp)).run s as = some s') :
    ¬(system (config hp)).Throughout StatusOk s as := by
  induction as generalizing s t with
  | nil => exact absurd hmem List.not_mem_nil
  | cons a as ih =>
    obtain ⟨u, hstep, hrest⟩ := StepSystem.run_cons_eq_some.mp hrun
    rintro ⟨-, hthrough⟩
    by_cases ha : a = .handshakeDone true
    · subst ha
      exact h.1.not_statusOk hstep (hthrough u hstep).first
    · have hmem' : .handshakeDone true ∈ as := (List.mem_cons.mp hmem).resolve_left (Ne.symm ha)
      rcases h.step ha hstep with ⟨-, hrel⟩ | ⟨_, _, -, -, hrel⟩
      · exact ih hrel hmem' hrest (hthrough u hstep)
      · exact ih hrel hmem' hrest (hthrough u hstep)

theorem throughout_statusOk {as : List Action} (h : Related s t)
    (hno : .handshakeDone true ∉ as) : (system cfg).Throughout StatusOk s as := by
  induction as generalizing s t with
  | nil => exact h.1.statusOk
  | cons a as ih =>
    refine ⟨h.1.statusOk, fun u hstep ↦ ?_⟩
    rw [List.mem_cons, not_or] at hno
    rcases h.step (Ne.symm hno.1) hstep with ⟨-, hrel⟩ | ⟨_, _, -, -, hrel⟩
    · exact ih hrel hno.2
    · exact ih hrel hno.2

/-! ## The protocol, settled -/

/-- A new socket, accepted by a listener or about to connect. -/
def new (isOpen : Bool) : TlsSocket := { sock := { tcpSockOpen := isOpen } }

theorem related_new (isOpen : Bool) :
    Related (new isOpen) ({ tcpSockOpen := isOpen } : TcpSocket) :=
  ⟨⟨rfl, by simp [new], rfl, rfl, rfl, by simp [new], rfl, rfl, rfl⟩, isOpen, 0, Nat.le_refl _, rfl⟩

/-- **When a TLS socket keeps the status protocol of the plain one.** For every run of a new socket,
in either role and with any `handle_package`: a connected socket is open in every state of the run,
and the run is one of a plain socket when the steps of the handshake are erased, exactly when no
handshake of the run succeeds. -/
theorem statusOk_and_isTcpRun_iff {hp : List Entry → List UInt8 → ℤ} {isOpen : Bool}
    {as : List Action} (hrun : (system (config hp)).run (new isOpen) as = some s) :
    (system (config hp)).Throughout StatusOk (new isOpen) as
        ∧ IsTcpRun (config hp) (new isOpen) { tcpSockOpen := isOpen } as
      ↔ .handshakeDone true ∉ as := by
  have hrel := related_new isOpen
  constructor
  · rintro ⟨hthrough, -⟩ hmem
    exact not_throughout_statusOk hrel hmem hrun hthrough
  · intro hno
    refine ⟨throughout_statusOk hrel hno, ?_⟩
    refine StepSystem.matched_of_simulation (R := Related) (C := (· ≠ .handshakeDone true))
      (fun _ _ h ↦ h.same) (fun _ _ _ _ h hne hstep ↦ h.step hne hstep) hrel (fun a ha ↦ ?_) hrun
    exact fun heq ↦ hno (heq ▸ ha)

/-- The default `handle_package`. -/
def wholeReads : List Entry → List UInt8 → ℤ := fun _ d ↦ d.length

/-- A client whose handshake fails, and which is closed then. -/
theorem statusOk_failed_handshake :
    (system (config wholeReads)).Throughout StatusOk (new false)
        [.base (.connect true), .base (.connectDone true), .handshakeDone false,
          .base (.msend [.view [1]]), .base .close, .base (.runTask 0)]
      ∧ IsTcpRun (config wholeReads) (new false) { tcpSockOpen := false }
        [.base (.connect true), .base (.connectDone true), .handshakeDone false,
          .base (.msend [.view [1]]), .base .close, .base (.runTask 0)] :=
  (statusOk_and_isTcpRun_iff rfl).mpr (by decide)

/-- A server whose handshake succeeds: the connection has heard `EVT_CONNECT`, the status is still
`SOCKET_INIT`, and `msend` answers `-1`. -/
theorem connected_not_open :
    ∃ s, (system (config wholeReads)).run (new true)
        [.base .initRead, .handshakeDone true, .base (.msend [.view [1]])] = some s
      ∧ s.sock.log = [.handled .connect] ∧ s.sock.socketStatus = .init
      ∧ s.sock.isOpen = false ∧ s.sock.results = [-1]
      ∧ ¬StatusOk s := by
  refine ⟨_, rfl, by decide, by decide, by decide, by decide, fun h ↦ ?_⟩
  exact absurd (h (by decide)).1 (by decide)

end TlsSocket

end Knet.Tls
