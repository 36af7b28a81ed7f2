import Knet.Tcp.Reading
import Knet.Tcp.Sending

/-!
# The next read

The completion handler of a read runs the framing and calls `do_read`, which starts the next read
when there is room in the buffer. Two branches end differently.

* On a full buffer `do_read` runs the framing a second time, and closes the socket if the buffer is
  full after that. A `handle_package` that finds a package only the second time leaves room in the
  buffer, and the handler returns without a read.
* When a package is announced that is longer than the buffer, `process_data` calls `do_close`. With
  a reconnect to come, that leaves `tcp_sock` open, and the `do_read` behind it starts a read.

`Rearms` is the condition on the answers of `handle_package` under which neither happens. Over
reconnects it asks for a third thing: a session does not begin with a read of the last one still
outstanding.
-/

namespace Knet.Tcp

namespace TcpSocket

variable {cfg : Config}

/-! ## Packages that are announced too long -/

/-- Behind whole packages, `handle_package` announces one that is longer than the buffer. -/
inductive Announces (cfg : Config) (m : Memory UInt8) (pos : ℕ) : List Entry → ℕ → Prop
  | here {log readPos} (h : readPos < pos)
    (hlong : (cfg.kReadBufferSize : ℤ) < cfg.handlePackage log (m.read readPos pos)) :
    Announces cfg m pos log readPos
  | behind {log readPos} {n : ℕ} (h : readPos < pos)
    (hlen : cfg.handlePackage log (m.read readPos pos) = n) (hpos : 0 < n)
    (hfit : readPos + n ≤ pos)
    (hrest : Announces cfg m pos
      (log ++ [.package (m.read readPos pos), .data (m.read readPos n)]) (readPos + n)) :
    Announces cfg m pos log readPos

section Announces

variable {m : Memory UInt8} {pos readPos fuel : ℕ} {log : List Entry}

theorem Announces.answer_pos (h : Announces cfg m pos log readPos) :
    0 < cfg.handlePackage log (m.read readPos pos) := by
  cases h with
  | here _ hlong => omega
  | behind _ hlen => omega

theorem not_announces_of_le (h : pos ≤ readPos) : ¬Announces cfg m pos log readPos := by
  intro ha
  cases ha with
  | here hlt => omega
  | behind hlt => omega

/-- The loop calls `do_close` exactly when a package is announced that is too long. -/
theorem overlong_scan_iff (hbuf : pos ≤ cfg.kReadBufferSize) (hfuel : pos - readPos ≤ fuel) :
    (scan cfg m pos fuel log readPos).overlong = true ↔ Announces cfg m pos log readPos := by
  induction fuel generalizing log readPos with
  | zero =>
    rw [scan_exit (by omega)]
    exact iff_of_false Bool.false_ne_true (not_announces_of_le (by omega))
  | succ fuel ih =>
    rcases scan_cases cfg m pos log readPos with hx | ⟨hx, pkgLen, hlen, hstop⟩ | ⟨hx, n, hlen, hn,
      hfit⟩
    · rw [scan_exit hx]
      exact iff_of_false Bool.false_ne_true (not_announces_of_le hx)
    · rw [scan_stop hx hlen hstop, decide_eq_true_iff, ← hlen]
      refine ⟨fun hlong ↦ .here hx hlong, fun ha ↦ ?_⟩
      cases ha with
      | here _ hlong => exact hlong
      | behind _ hlen' => omega
    · rw [scan_take hx hlen hn hfit, ih (by omega)]
      refine ⟨fun ha ↦ .behind hx hlen hn hfit ha, fun ha ↦ ?_⟩
      cases ha with
      | here _ hlong => omega
      | behind _ hlen' _ _ hrest =>
        obtain rfl := Int.ofNat.inj (hlen'.symm.trans hlen)
        exact hrest

/-- The three ways in which the loop runs over a buffer that is not empty. -/
theorem scan_outcomes (hpos : 0 < pos) (hbuf : pos ≤ cfg.kReadBufferSize) :
    (Announces cfg m pos log 0 ∧ (scan cfg m pos pos log 0).overlong = true)
      ∨ (¬Announces cfg m pos log 0
        ∧ (pos = cfg.kReadBufferSize → cfg.handlePackage log (m.read 0 pos) ≤ 0)
        ∧ scan cfg m pos pos log 0 = ⟨log ++ [.package (m.read 0 pos)], 0, false⟩)
      ∨ (¬Announces cfg m pos log 0 ∧ 0 < cfg.handlePackage log (m.read 0 pos)
        ∧ (scan cfg m pos pos log 0).overlong = false ∧ 0 < (scan cfg m pos pos log 0).readPos
        ∧ (scan cfg m pos pos log 0).readPos ≤ pos) := by
  have hover := @overlong_scan_iff cfg m pos 0 pos log hbuf (Nat.sub_le _ _)
  by_cases ha : Announces cfg m pos log 0
  · exact .inl ⟨ha, hover.mpr ha⟩
  rw [← hover, Bool.not_eq_true] at ha
  obtain ⟨k, hk⟩ : ∃ k, pos = k + 1 := ⟨pos - 1, by omega⟩
  rcases scan_cases cfg m pos log 0 with hx | ⟨-, pkgLen, hlen, hstop⟩ | ⟨-, n, hlen, hn, hfit⟩
  · omega
  · right; left
    have hscan := @scan_stop cfg m pos 0 k log pkgLen hpos hlen hstop
    rw [← hk] at hscan
    have hshort : ¬(cfg.kReadBufferSize : ℤ) < pkgLen := by simpa [hscan] using ha
    refine ⟨fun h ↦ Bool.false_ne_true (ha.symm.trans (hover.mpr h)), by omega, ?_⟩
    rw [hscan, decide_eq_false hshort]
  · right; right
    have hscan := @scan_take cfg m pos 0 k log n hpos hlen hn hfit
    rw [← hk] at hscan
    obtain ⟨ranges, hloop⟩ := @exists_loop_scan cfg m pos k (0 + n)
      (log ++ [.package (m.read 0 pos), .data (m.read 0 n)]) (by omega)
    obtain ⟨htiles, hle, -⟩ := hloop.result hfit
    refine ⟨fun h ↦ Bool.false_ne_true (ha.symm.trans (hover.mpr h)), by omega, ha, ?_, ?_⟩
    · have hstart := htiles.le
      rw [hscan]
      omega
    · rw [hscan]
      exact hle

end Announces

/-! ## One read -/

/-- The socket is open, and exactly one read is outstanding, for the room behind `read_buffer_pos`,
of which there is some. -/
structure Armed (cfg : Config) (s : TcpSocket) : Prop where
  status : s.socketStatus = .opened
  connection : s.connection = true
  isOpen : s.tcpSockOpen = true
  room : s.readBufferPos < cfg.kReadBufferSize
  reads : s.reads = [⟨s.readBufferPos, cfg.kReadBufferSize - s.readBufferPos⟩]

/-- What the completion handler of a read leaves: an armed socket, or one on which `do_close` was
executed and nothing is read. -/
def Rearmed (cfg : Config) (s : TcpSocket) : Prop :=
  Armed cfg s ∨ s.socketStatus ≠ .opened ∧ s.reads = []

/-- A socket on which a session can begin: it is open and has room in its buffer, and no read of an
earlier session is outstanding. -/
def Fresh (cfg : Config) (s : TcpSocket) : Prop :=
  s.tcpSockOpen = true ∧ s.reads = [] ∧ s.readBufferPos < cfg.kReadBufferSize

/-- When the handler of the read of `chunk` arms the socket again. A package that is announced too
long ends the connection for good; and a full buffer in which no package is found at first is not
found to begin with one when the framing is run again. -/
def RearmsAfter (cfg : Config) (s : TcpSocket) (chunk : List UInt8) : Prop :=
  let m := s.readBuffer.write s.readBufferPos chunk
  let pos := s.readBufferPos + chunk.length
  let log := s.log ++ [.received chunk]
  let again := log ++ [.package (m.read 0 pos)]
  (Announces cfg m pos log 0 → s.needReconnect = false) ∧
    (pos = cfg.kReadBufferSize → cfg.handlePackage log (m.read 0 pos) ≤ 0 →
      cfg.handlePackage again (m.read 0 pos) ≤ 0 ∨ Announces cfg m pos again 0)

/-- `do_close` on an open socket that is to reconnect leaves `tcp_sock` open. -/
theorem doClose_reconnect {s : TcpSocket} (hst : s.socketStatus = .opened)
    (hconn : s.connection = true) (hre : s.needReconnect = true) :
    s.doClose = { s with
      socketStatus := .reconnect, sendBuffer := [], cacheBuffer := [], readBufferPos := 0
      log := s.log ++ closingEvents s.socketStatus } := by
  rw [doClose_eq, if_neg (by simp [hst]), if_pos hconn, if_pos hre]

theorem tcpSockOpen_doClose {s : TcpSocket} (hst : s.socketStatus = .opened)
    (hconn : s.connection = true) (hre : s.needReconnect = false) :
    s.doClose.tcpSockOpen = false := by
  rw [doClose_eq, if_neg (by simp [hst]), if_pos hconn, if_neg (by simp [hre])]
  rfl

theorem readBufferPos_doClose {s : TcpSocket} (hst : s.socketStatus = .opened) :
    s.doClose.readBufferPos = 0 := by
  rw [doClose_eq, if_neg (by simp [hst])]
  split_ifs <;> rfl

theorem armed_doRead {s : TcpSocket} (hst : s.socketStatus = .opened) (hconn : s.connection = true)
    (hopen : s.tcpSockOpen = true) (hreads : s.reads = [])
    (hroom : s.readBufferPos < cfg.kReadBufferSize) : Armed cfg (s.doRead cfg) := by
  rw [doRead, if_pos hopen, if_pos hroom]
  exact ⟨hst, hconn, hopen, hroom, by rw [hreads]; rfl⟩

theorem armed_initRead {s : TcpSocket} (h : s.socketStatus = .opened → Armed cfg s)
    (hfresh : s.connection = true → Fresh cfg s)
    (hopen : (s.initRead cfg).socketStatus = .opened) : Armed cfg (s.initRead cfg) := by
  rw [initRead] at hopen ⊢
  split_ifs at hopen ⊢ with hconn
  · obtain ⟨hsock, hreads, hroom⟩ := hfresh hconn
    exact armed_doRead rfl hconn hsock hreads hroom
  · exact h hopen

theorem not_armed_of_reads {s : TcpSocket} (hreads : s.reads = []) : ¬Armed cfg s := by
  intro h
  have harmed := h.reads
  rw [hreads] at harmed
  exact List.cons_ne_nil _ _ harmed.symm

/-- A package that is announced too long closes the socket. Another read is started all the same
when there is a reconnect to come. -/
theorem doRead_of_overlong {s : TcpSocket} {nread : ℕ} (hst : s.socketStatus = .opened)
    (hconn : s.connection = true) (hopen : s.tcpSockOpen = true) (hreads : s.reads = [])
    (hK : 0 < cfg.kReadBufferSize) (hover : (s.scanned cfg nread).overlong = true) :
    (Rearmed cfg ((s.processData cfg nread).doRead cfg) ↔ s.needReconnect = false)
      ∧ ((s.processData cfg nread).doRead cfg).socketStatus ≠ .opened := by
  rw [processData_overlong hover]
  set u : TcpSocket := { s with
    log := (s.scanned cfg nread).log
    readBufferPos := s.readBufferPos + nread } with hu
  have hstatus := socketStatus_doClose_ne u
  cases hre : s.needReconnect with
  | false =>
    have hclosed : u.doClose.tcpSockOpen = false := tcpSockOpen_doClose hst hconn hre
    rw [doRead, if_neg (by simp [hclosed])]
    exact ⟨iff_of_true (.inr ⟨hstatus, (reads_doClose u).trans hreads⟩) rfl, hstatus⟩
  | true =>
    have hclose : u.doClose = _ := doClose_reconnect hst hconn hre
    rw [hclose, doRead, if_pos (by exact hopen), if_pos (by exact hK)]
    refine ⟨iff_of_false ?_ (by simp), by simp⟩
    rintro (harmed | ⟨-, hnil⟩)
    · exact absurd harmed.status (by simp)
    · exact List.append_ne_nil_of_right_ne_nil _ (List.cons_ne_nil _ _) hnil

theorem doRead_of_full {s : TcpSocket} (hst : s.socketStatus = .opened)
    (hconn : s.connection = true) (hopen : s.tcpSockOpen = true) (hreads : s.reads = [])
    (hK : 0 < cfg.kReadBufferSize) (hfull : s.readBufferPos = cfg.kReadBufferSize) :
    (Rearmed cfg (s.doRead cfg)
        ↔ cfg.handlePackage s.log (s.readBuffer.read 0 s.readBufferPos) ≤ 0
          ∨ Announces cfg s.readBuffer s.readBufferPos s.log 0)
      ∧ ((s.doRead cfg).socketStatus = .opened → (s.doRead cfg).reads = []) := by
  have hscanned : s.scanned cfg 0
      = scan cfg s.readBuffer s.readBufferPos s.readBufferPos s.log 0 := by
    rw [scanned, if_pos hconn, Nat.add_zero]
  rw [doRead, if_pos hopen, if_neg (by omega)]
  have hdone : (s.processData cfg 0).doClose.reads = [] := by
    rw [reads_doClose, reads_processData, hreads]
  have hclosed : Rearmed cfg (s.processData cfg 0).doClose :=
    .inr ⟨socketStatus_doClose_ne _, hdone⟩
  rcases @scan_outcomes cfg s.readBuffer s.readBufferPos s.log (by omega) (by omega) with
    ⟨ha, hover⟩ | ⟨-, hans, hscan⟩ | ⟨ha, hans, hover, hpos, hle⟩
  · -- `process_data` has closed the socket
    rw [← hscanned] at hover
    have hzero : (s.processData cfg 0).readBufferPos = 0 := by
      rw [processData_overlong hover, readBufferPos_doClose (by exact hst)]
    have hstatus : (s.processData cfg 0).socketStatus ≠ .opened := by
      rw [processData_overlong hover]
      exact socketStatus_doClose_ne _
    have hnil : (s.processData cfg 0).reads = [] := by rw [reads_processData, hreads]
    rw [if_neg (by omega)]
    exact ⟨iff_of_true (.inr ⟨hstatus, hnil⟩) (.inr ha), fun _ ↦ hnil⟩
  · -- nothing was found the second time either
    rw [← hscanned] at hscan
    have hkept : (s.processData cfg 0).readBufferPos = s.readBufferPos := by
      rw [processData_fits (by rw [hscan]), hscan]
      rfl
    rw [if_pos (by omega)]
    exact ⟨iff_of_true hclosed (.inl (hans hfull)), fun _ ↦ hdone⟩
  · -- a package was found the second time, and nothing is left to do
    rw [← hscanned] at hover hpos hle
    have hroom : (s.processData cfg 0).readBufferPos < cfg.kReadBufferSize := by
      rw [processData_fits hover]
      dsimp only
      omega
    have hnil : (s.processData cfg 0).reads = [] := by rw [reads_processData, hreads]
    have hstatus : (s.processData cfg 0).socketStatus = .opened := by
      rw [processData_fits hover]
      exact hst
    rw [if_neg (by omega)]
    refine ⟨iff_of_false ?_ (not_or.mpr ⟨by omega, ha⟩), fun _ ↦ hnil⟩
    rintro (harmed | ⟨hne, -⟩)
    · exact not_armed_of_reads hnil harmed
    · exact hne hstatus

/-- The state in which the completion handler of a read enters `process_data`. -/
def stored (s : TcpSocket) (chunk : List UInt8) : TcpSocket :=
  { s with
    reads := []
    readBuffer := s.readBuffer.write s.readBufferPos chunk
    log := s.log ++ [.received chunk] }

/-- **One completed read.** The handler arms the socket again, or closes it with no read left,
exactly under the condition; and an open socket is never left with more than one read. -/
theorem Armed.readOk {s : TcpSocket} {chunk : List UInt8} (h : Armed cfg s)
    (hchunk : 0 < chunk.length) (hroom : s.readBufferPos + chunk.length ≤ cfg.kReadBufferSize) :
    (Rearmed cfg (({ s with reads := [] }).readOk cfg s.readBufferPos chunk)
        ↔ RearmsAfter cfg s chunk)
      ∧ ((({ s with reads := [] }).readOk cfg s.readBufferPos chunk).socketStatus = .opened →
        (({ s with reads := [] }).readOk cfg s.readBufferPos chunk).reads = []
          ∨ Armed cfg (({ s with reads := [] }).readOk cfg s.readBufferPos chunk)) := by
  have hreadOk : ({ s with reads := [] } : TcpSocket).readOk cfg s.readBufferPos chunk
      = ((s.stored chunk).processData cfg chunk.length).doRead cfg := rfl
  have hscanned : (s.stored chunk).scanned cfg chunk.length
      = scan cfg (s.stored chunk).readBuffer (s.readBufferPos + chunk.length)
        (s.readBufferPos + chunk.length) (s.stored chunk).log 0 := by
    rw [scanned, if_pos (by exact h.connection)]
    rfl
  have hK : 0 < cfg.kReadBufferSize := by omega
  rw [hreadOk]
  rcases @scan_outcomes cfg (s.stored chunk).readBuffer (s.readBufferPos + chunk.length)
      (s.stored chunk).log (by omega) hroom with
    ⟨ha, hover⟩ | ⟨hna, hans, hscan⟩ | ⟨hna, hans, hover, hpos, hle⟩
  · rw [← hscanned] at hover
    obtain ⟨hiff, hne⟩ := @doRead_of_overlong cfg (s.stored chunk) chunk.length h.status
      h.connection h.isOpen rfl hK hover
    refine ⟨hiff.trans ⟨fun hre ↦ ⟨fun _ ↦ hre, fun _ hle ↦ ?_⟩, fun hr ↦ hr.1 ha⟩,
      fun ho ↦ absurd ho hne⟩
    exact absurd ha.answer_pos (Int.not_lt.mpr hle)
  · rw [← hscanned] at hscan
    set u : TcpSocket := { s.stored chunk with
      log := (s.stored chunk).log ++ [.package ((s.stored chunk).readBuffer.read 0
        (s.readBufferPos + chunk.length))]
      readBufferPos := s.readBufferPos + chunk.length } with hu
    have hdata : (s.stored chunk).processData cfg chunk.length = u := by
      rw [processData_fits (by rw [hscan]), hscan]
      simp [hu, stored]
    rw [hdata]
    by_cases hfull : s.readBufferPos + chunk.length = cfg.kReadBufferSize
    · obtain ⟨hiff, hnil⟩ := @doRead_of_full cfg u h.status h.connection h.isOpen rfl hK hfull
      refine ⟨hiff.trans ⟨fun hx ↦ ⟨fun ha ↦ absurd ha hna, fun _ _ ↦ hx⟩, fun hr ↦ ?_⟩,
        fun ho ↦ .inl (hnil ho)⟩
      exact hr.2 hfull (hans hfull)
    · have harmed := @armed_doRead cfg u h.status h.connection h.isOpen rfl
        (Nat.lt_of_le_of_ne hroom hfull)
      refine ⟨iff_of_true (.inl harmed) ⟨fun ha ↦ absurd ha hna, fun hf ↦ absurd hf hfull⟩,
        fun _ ↦ .inr harmed⟩
  · rw [← hscanned] at hover hpos hle
    have hdata := processData_fits hover
    have harmed : Armed cfg (((s.stored chunk).processData cfg chunk.length).doRead cfg) := by
      rw [hdata]
      refine armed_doRead h.status h.connection h.isOpen rfl ?_
      change s.readBufferPos + chunk.length - _ < _
      omega
    refine ⟨iff_of_true (.inl harmed) ⟨fun ha ↦ absurd ha hna, fun _ hle ↦ ?_⟩,
      fun _ ↦ .inr harmed⟩
    exact absurd hans (Int.not_lt.mpr hle)

/-! ## Runs -/

/-- The steps that do not begin a session. -/
def Action.InSession : Action → Prop
  | .initRead | .connectDone true => False
  | _ => True

/-- A read that completes with bytes on an open socket leaves it armed, or closed with no read. -/
def KeepsReading (cfg : Config) (s : TcpSocket) : Action → Prop
  | .readDone i (some chunk) => s.socketStatus = .opened →
      ∀ t, (system cfg).step s (.readDone i (some chunk)) = some t → Rearmed cfg t
  | _ => True

/-- The condition: on the answers of `handle_package` for each read that completes, and on the
socket where a session begins. -/
def Rearms (cfg : Config) (s : TcpSocket) : Action → Prop
  | .readDone _ (some chunk) => s.socketStatus = .opened → RearmsAfter cfg s chunk
  | .initRead | .connectDone true => s.connection = true → Fresh cfg s
  | _ => True

/-- The members that reading depends on. -/
def readSide (s : TcpSocket) : SocketStatus × Bool × Bool × ℕ × List ReadOp :=
  (s.socketStatus, s.connection, s.tcpSockOpen, s.readBufferPos, s.reads)

theorem Armed.congr {s t : TcpSocket} (h : Armed cfg s) (hside : t.readSide = s.readSide) :
    Armed cfg t := by
  simp only [readSide, Prod.mk.injEq] at hside
  obtain ⟨hst, hconn, hopen, hpos, hreads⟩ := hside
  exact ⟨hst ▸ h.status, hconn ▸ h.connection, hopen ▸ h.isOpen, hpos ▸ h.room,
    by rw [hreads, hpos, h.reads]⟩

theorem readSide_doAsyncWrite (s : TcpSocket) (now : ℕ) :
    (s.doAsyncWrite now).readSide = s.readSide := by
  obtain ⟨_, _, _, _, _, _, hw⟩ := s.doAsyncWrite_frame now
  rw [hw]
  rfl

/-- A socket that is open after a step of its session other than the end of a read has been open
before, and its reads are what they were. -/
theorem readSide_step {s t : TcpSocket} {a : Action} (hsession : a.InSession)
    (hread : ∀ i chunk, a ≠ .readDone i chunk) (hstep : (system cfg).step s a = some t)
    (hopen : t.socketStatus = .opened) : t.readSide = s.readSide := by
  cases fires_of_step hstep with
  | initRead => exact hsession.elim
  | connect resolved =>
    simp only [connect] at hopen ⊢
    split_ifs at hopen ⊢
    rfl
  | connectDone ok =>
    cases ok with
    | true => exact hsession.elim
    | false => exact absurd hopen (by simp [connectDone])
  | readOk i op chunk => exact absurd rfl (hread i (some chunk))
  | readError i => exact absurd rfl (hread i none)
  | msend args =>
    rw [msend]
    split_ifs <;> rfl
  | post => rfl
  | doSend now rest hposted =>
    rw [doSendTask]
    split_ifs
    · rfl
    · exact readSide_doAsyncWrite _ now
  | closeTask now => exact absurd hopen (socketStatus_closeTask_ne _ now)
  | take => rfl
  | writeOk i now =>
    rw [writeOk, readSide_doAsyncWrite]
    split_ifs <;> rfl
  | writeError => exact absurd hopen (socketStatus_doClose_ne _)
  | close =>
    rw [close]
    split_ifs <;> rfl
  | enableReconnect =>
    rw [enableReconnect]
    split_ifs <;> rfl
  | disableReconnect => rfl
  | timer resolved =>
    simp only [timerFires, connect] at hopen ⊢
    split_ifs at hopen ⊢ <;> rfl

theorem socketStatus_readOk {s : TcpSocket} {off : ℕ} {chunk : List UInt8}
    (h : (s.readOk cfg off chunk).socketStatus = .opened) : s.socketStatus = .opened := by
  set u : TcpSocket := { s with
    readBuffer := s.readBuffer.write off chunk
    log := s.log ++ [.received chunk] } with hu
  have hdata : (u.processData cfg chunk.length).socketStatus = .opened := (sendSide_doRead h).2
  cases hover : (u.scanned cfg chunk.length).overlong with
  | true =>
    rw [processData_overlong hover] at hdata
    exact absurd hdata (socketStatus_doClose_ne _)
  | false =>
    rw [processData_fits hover] at hdata
    exact hdata

/-- An open socket has no read outstanding, or is armed. -/
def AtMostArmed (cfg : Config) (s : TcpSocket) : Prop :=
  s.socketStatus = .opened → s.reads = [] ∨ Armed cfg s

theorem AtMostArmed.readOp {s : TcpSocket} {i : ℕ} {op : ReadOp} (h : AtMostArmed cfg s)
    (hst : s.socketStatus = .opened) (hop : s.reads[i]? = some op) :
    Armed cfg s ∧ s.reads.eraseIdx i = [] ∧ op.off = s.readBufferPos
      ∧ op.room = cfg.kReadBufferSize - s.readBufferPos := by
  rcases h hst with hnil | harmed
  · rw [hnil] at hop
    exact absurd hop (by simp)
  · have hreads := harmed.reads
    rw [hreads] at hop ⊢
    cases i with
    | zero =>
      obtain rfl := Option.some.inj hop
      exact ⟨harmed, rfl, rfl, rfl⟩
    | succ i => exact absurd hop (by simp)

/-- **One step of a session.** -/
theorem AtMostArmed.step {s t : TcpSocket} {a : Action} (h : AtMostArmed cfg s)
    (hsession : a.InSession) (hstep : (system cfg).step s a = some t) :
    AtMostArmed cfg t ∧ (KeepsReading cfg s a ↔ Rearms cfg s a)
      ∧ (Rearms cfg s a → (s.socketStatus = .opened → Armed cfg s) →
        t.socketStatus = .opened → Armed cfg t) := by
  by_cases hread : ∀ i chunk, a ≠ .readDone i chunk
  · have hside := readSide_step hsession hread hstep
    have hstatus : t.socketStatus = .opened → s.socketStatus = .opened := fun hopen ↦
      (congrArg Prod.fst (hside hopen)).symm.trans hopen
    refine ⟨fun hopen ↦ ?_, ?_, fun _ harmed hopen ↦ (harmed (hstatus hopen)).congr (hside hopen)⟩
    · refine (h (hstatus hopen)).imp (fun hnil ↦ ?_) fun harmed ↦ harmed.congr (hside hopen)
      have hreads := hside hopen
      simp only [readSide, Prod.mk.injEq] at hreads
      rw [hreads.2.2.2.2, hnil]
    · cases a with
      | readDone i chunk => exact absurd rfl (hread i chunk)
      | initRead => exact hsession.elim
      | connectDone ok =>
        cases ok with
        | true => exact hsession.elim
        | false => exact Iff.rfl
      | _ => exact Iff.rfl
  · obtain ⟨i, chunk, rfl⟩ : ∃ i chunk, a = .readDone i chunk := by simpa using hread
    cases fires_of_step hstep with
    | readError =>
      have hne := socketStatus_doClose_ne
        { ({ s with reads := s.reads.eraseIdx i } : TcpSocket) with cacheBuffer := [] }
      exact ⟨fun ho ↦ absurd ho hne, Iff.rfl, fun _ _ ho ↦ absurd ho hne⟩
    | readOk _ op chunk hop hchunk hroom =>
      by_cases hst : s.socketStatus = .opened
      · obtain ⟨harmed, herase, hoff, hop'⟩ := h.readOp hst hop
        have hlt := harmed.room
        obtain ⟨hiff, hleft⟩ := harmed.readOk hchunk (by omega)
        rw [herase, hoff] at hstep ⊢
        refine ⟨fun ho ↦ hleft ho, ?_, fun hr _ ho ↦ ?_⟩
        · refine ⟨fun hk _ ↦ hiff.mp (hk hst _ hstep), fun hr _ t ht ↦ ?_⟩
          obtain rfl := Option.some.inj (hstep.symm.trans ht)
          exact hiff.mpr (hr hst)
        · exact (hiff.mpr (hr hst)).resolve_right fun hx ↦ hx.1 ho
      · have hne : (({ s with reads := s.reads.eraseIdx i } : TcpSocket).readOk cfg op.off
            chunk).socketStatus ≠ .opened := fun ho ↦
          hst (@socketStatus_readOk cfg { s with reads := s.reads.eraseIdx i } op.off chunk ho)
        refine ⟨fun ho ↦ absurd ho hne, ?_, fun _ _ ho ↦ absurd ho hne⟩
        exact iff_of_true (fun ho ↦ absurd ho hst) fun ho ↦ absurd ho hst

/-- Whole reads are never announced too long, and never leave the buffer full. -/
theorem rearmsAfter_wholeReads {s : TcpSocket} {chunk : List UInt8}
    (h : s.readBufferPos + chunk.length < kReadBufferSize) : RearmsAfter wholeReads s chunk := by
  refine ⟨fun ha ↦ ?_, fun hfull ↦ absurd hfull (Nat.ne_of_lt h)⟩
  cases ha with
  | here _ hlong =>
    simp only [wholeReads, Memory.length_read] at hlong
    omega
  | behind _ hlen _ hfit hrest =>
    simp only [wholeReads, Memory.length_read] at hlen
    exact absurd hrest (not_announces_of_le (by omega))

/-- An open socket is armed after a step that meets the condition, if it was before. -/
theorem armed_step {s t : TcpSocket} {a : Action} (h : s.socketStatus = .opened → Armed cfg s)
    (hstep : (system cfg).step s a = some t) (hr : Rearms cfg s a) :
    KeepsReading cfg s a ∧ (t.socketStatus = .opened → Armed cfg t) := by
  by_cases hsession : a.InSession
  · have hmost : AtMostArmed cfg s := fun hopen ↦ .inr (h hopen)
    obtain ⟨-, hiff, harm⟩ := hmost.step hsession hstep
    exact ⟨hiff.mpr hr, harm hr h⟩
  · cases fires_of_step hstep with
    | initRead => exact ⟨trivial, armed_initRead h hr⟩
    | connectDone ok =>
      cases ok with
      | true =>
        have hopen : s.socketStatus = .opened → Armed cfg { s with connects := s.connects - 1 } :=
          fun ho ↦ (h ho).congr rfl
        exact ⟨trivial, armed_initRead hopen hr⟩
      | false => exact absurd trivial hsession
    | _ => exact absurd trivial hsession

/-- **When an open connection always has a read pending.** Along every run whose steps meet the
condition, every read that completes on the open socket leaves it armed, or closed with no read, and
the socket is armed in every state in which it is open. In a session, whatever else happens between
the reads, this needs the condition at each of them. -/
theorem keepsReading_along_iff {s : TcpSocket} (hfirst : s.socketStatus = .opened → Armed cfg s)
    (as : List Action) :
    ((system cfg).Along (Rearms cfg) s as → (system cfg).Along (KeepsReading cfg) s as
        ∧ (system cfg).Throughout (fun s ↦ s.socketStatus = .opened → Armed cfg s) s as)
      ∧ ((∀ a ∈ as, a.InSession) →
        ((system cfg).Along (KeepsReading cfg) s as ↔ (system cfg).Along (Rearms cfg) s as)) := by
  refine ⟨fun halong ↦ ⟨?_, ?_⟩, fun hsession ↦ ?_⟩
  · exact halong.of_invariant hfirst fun u a v h hstep hr ↦ armed_step h hstep hr
  · exact StepSystem.throughout_of_invariant hfirst
      (fun u a v h hstep hr ↦ (armed_step h hstep hr).2) (fun _ h ↦ h) halong
  · have hmost : AtMostArmed cfg s := fun hopen ↦ .inr (hfirst hopen)
    refine StepSystem.along_iff_of_mem hmost ?_ ?_
    · exact fun u a v ha h hstep ↦ (h.step (hsession a ha) hstep).1
    · exact fun u a v ha h hstep ↦ (h.step (hsession a ha) hstep).2.1

/-- Two reads on a socket that has just been accepted. -/
theorem keepsReading_two_reads :
    (system wholeReads).Along (KeepsReading wholeReads) accepted
      [.initRead, .readDone 0 (some [1, 2]), .msend [.value [7]], .readDone 0 (some [3])] := by
  refine ((keepsReading_along_iff (fun h ↦ absurd h (by decide)) _).1 ?_).1
  intro s hs
  obtain rfl := Option.some.inj hs
  refine ⟨fun _ ↦ ⟨rfl, rfl, by decide⟩, fun t ht ↦ ?_⟩
  obtain rfl := Option.some.inj ht
  refine ⟨fun _ ↦ rearmsAfter_wholeReads (by decide), fun u hu ↦ ?_⟩
  obtain rfl := Option.some.inj hu
  refine ⟨trivial, fun v hv ↦ ?_⟩
  obtain rfl := Option.some.inj hv
  exact ⟨fun _ ↦ rearmsAfter_wholeReads (by decide), trivial⟩

/-- A package is announced too long on a socket that is to reconnect: `do_close` is executed, and a
read is outstanding behind it. And a buffer of two bytes is found to be a package the second time:
it is empty then, the socket is open, and no read is outstanding. -/
theorem read_after_close_and_none :
    (∃ s t, (system ⟨kReadBufferSize, fun _ _ ↦ kReadBufferSize + 1⟩).run {}
          [.connect true, .connectDone true, .enableReconnect] = some s
        ∧ s.socketStatus = .opened
        ∧ (system ⟨kReadBufferSize, fun _ _ ↦ kReadBufferSize + 1⟩).step s
          (.readDone 0 (some [1])) = some t
        ∧ t.socketStatus = .reconnect ∧ t.reads = [⟨0, kReadBufferSize⟩])
      ∧ ∃ s t, (system ⟨2, fun log _ ↦ if log.length = 2 then 0 else 2⟩).run accepted
          [.initRead] = some s
        ∧ s.socketStatus = .opened
        ∧ (system ⟨2, fun log _ ↦ if log.length = 2 then 0 else 2⟩).step s
          (.readDone 0 (some [1, 2])) = some t
        ∧ t.socketStatus = .opened ∧ t.readBufferPos = 0 ∧ t.reads = [] := by
  refine ⟨⟨_, _, rfl, rfl, rfl, rfl, rfl⟩, _, _, rfl, rfl, rfl, rfl, rfl, rfl⟩

end TcpSocket

end Knet.Tcp
