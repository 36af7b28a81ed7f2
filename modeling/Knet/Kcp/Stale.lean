import Knet.Kcp.Ikcp
import Knet.Kcp.Life
import Knet.Kcp.Receive

/-!
# Bytes of earlier datagrams

`check_control_message` takes the receive buffer for a `KcpMsgHead` without asking how long the
datagram is. The command stands at the index 4, the id before it: in a shorter datagram the command
is a byte of an earlier one. A client stores a zero behind the datagram, which is the command of one
with four bytes; and behind a datagram that fills the buffer the zero is stored outside.

What an open or a ready connection does with a short datagram therefore always depends on the bytes
that are left over. Another one takes any control message for nothing, and hands anything else to
`ikcp_input`, which refuses a short datagram; what is left is the loop that takes messages out of
the receive queue, and it makes a difference if there is one.
-/

namespace Knet.Kcp

/-- `IKCP_OVERHEAD`, the size of the head of a segment. -/
def ikcpOverhead : ℕ := 24

namespace KcpConnection

variable {κ : Type*}

/-- The connection without the record of the calls of `handle_receive`. The messages that were
delivered stay. -/
def forget (c : KcpConnection κ) : KcpConnection κ :=
  { c with log := c.log.filter fun | .receive _ => false | _ => true }

/-- What can be seen of the handling of a datagram: the next state with the delivered messages, the
counter of the ids, and the replies. -/
def Checked.seen (r : Checked κ) : KcpConnection κ × UInt32 × List (List UInt8) :=
  (r.conn.forget, r.serverConvIndex, r.sent)

/-- `CONN_OPEN` or `CONN_KCP_READY`. -/
def Active (c : KcpConnection κ) : Prop := c.connStatus = .opened ∨ c.connStatus = .kcpReady

/-- An open or ready connection has a socket. -/
def Socketed (c : KcpConnection κ) : Prop := c.Active → c.kcpSock = true

/-- The connection is neither open nor ready, and no message in its receive queue can be taken. -/
def Quiet (c : KcpConnection Ikcpcb) : Prop :=
  ¬c.Active ∧ ∀ k ∈ c.kcp, ¬(0 < k.peeksize ∧ k.peeksize ≤ kMaxMessageLength)

/-- The indices of the buffer that `check_control_message` reads: the command, and the id of a
handshake message. -/
def headIndices (c : KcpConnection κ) (head : KcpMsgHead) : List ℕ :=
  4 :: if (c.connStatus = .opened ∨ c.connStatus = .kcpReady)
      ∧ (head.type = some .shakehandRequest ∨ head.type = some .shakehandResponse) then [0, 1, 2, 3]
    else []

end KcpConnection

namespace KcpClient

variable {κ : Type*} (lib : Ikcp κ)

/-- What can be seen of a client. -/
def seen (c : KcpClient κ) : KcpConnection κ × UInt32 × List (List UInt8) :=
  (c.conn.forget, c.serverConvIndex, c.sent)

/-- The indices of `recv_buffer` that are read or written for a datagram: by the socket and by
`ikcp_input`, for the zero, and for the head. -/
def touched (c : KcpClient κ) (d : List UInt8) : List ℕ :=
  List.range d.length ++ d.length :: (c.zeroed d).headIndices (c.headSeen d)

/-- The datagram is judged by its own bytes only, whatever the buffer held before, and within the
buffer. -/
structure Judges (c : KcpClient κ) (d : List UInt8) : Prop where
  same : ∀ m m' : Memory UInt8, ({ c with recvBuffer := m }.handle lib d).seen
    = ({ c with recvBuffer := m' }.handle lib d).seen
  inside : ∀ m : Memory UInt8, ∀ i ∈ { c with recvBuffer := m }.touched d, i < kMaxMessageLength

end KcpClient

namespace KcpListener

variable {κ ε : Type*} [DecidableEq ε] (lib : Ikcp κ)

/-- `MaxReceiveBufferSize`. -/
def maxReceiveBufferSize : ℕ := 4096

/-- What can be seen of a listener. -/
def seen (l : KcpListener κ ε) :
    (ε → Option (KcpConnection κ)) × UInt32 × ℕ × List (ε × List UInt8) :=
  (fun pt ↦ (l.connections pt).map KcpConnection.forget, l.serverConvIndex, l.index, l.sent)

/-- The indices of `recv_buffer` that are read or written for a datagram. -/
def touched (l : KcpListener κ ε) (pt : ε) (d : List UInt8) : List ℕ :=
  List.range d.length ++ (l.contact pt).headIndices (l.headSeen d)

/-- The datagram is judged by its own bytes only, whatever the buffer held before, and within the
buffer. -/
structure Judges (l : KcpListener κ ε) (pt : ε) (d : List UInt8) : Prop where
  same : ∀ m m' : Memory UInt8, ({ l with recvBuffer := m }.handle lib pt d).seen
    = ({ l with recvBuffer := m' }.handle lib pt d).seen
  inside : ∀ m : Memory UInt8, ∀ i ∈ { l with recvBuffer := m }.touched pt d,
    i < maxReceiveBufferSize

end KcpListener

/-! ## Messages in a receive queue -/

namespace Ikcpcb

variable {k : Ikcpcb}

theorem length_message (h : 0 < k.peeksize) :
    k.rcvQueue ≠ [] ∧ ((message k.rcvQueue).length : ℤ) = k.peeksize := by
  rw [peeksize] at h ⊢
  cases hqueue : k.rcvQueue with
  | nil =>
    rw [hqueue] at h
    exact absurd h (by decide)
  | cons seg segs =>
    rw [hqueue] at h
    refine ⟨List.cons_ne_nil _ _, ?_⟩
    dsimp only at h ⊢
    split_ifs at h ⊢ with hlast hmissing
    · simp [message, splitMessage, hlast]
    · exact absurd h (by decide)
    · rfl

theorem recv_cases (h : 0 < k.peeksize) :
    (k.peeksize ≤ kMaxMessageLength ∧ ∃ k' msg, k.recv kMaxMessageLength = (k', some msg)
        ∧ 0 < msg.length)
      ∨ (kMaxMessageLength < k.peeksize ∧ k.recv kMaxMessageLength = (k, none)) := by
  obtain ⟨hne, hlen⟩ := length_message h
  have hfail : (k.rcvQueue = [] ∨ k.peeksize < 0 ∨ (kMaxMessageLength : ℤ) < k.peeksize)
      ↔ (kMaxMessageLength : ℤ) < k.peeksize := by
    rw [or_iff_right hne, or_iff_right (by omega)]
  rcases Int.lt_or_le kMaxMessageLength k.peeksize with hlong | hfit
  · exact .inr ⟨hlong, if_pos (hfail.mpr hlong)⟩
  · refine .inl ⟨hfit, ?_⟩
    rw [recv, if_neg (by rw [hfail]; omega)]
    exact ⟨_, _, rfl, by omega⟩

end Ikcpcb

/-! ## One connection -/

namespace KcpConnection

section Heads

variable {κ : Type*} (lib : Ikcp κ) {c : KcpConnection κ} {serverConvIndex : UInt32}
  {h h' : KcpMsgHead} {data : List UInt8}

theorem mem_headIndices_lt {i : ℕ} (hi : i ∈ c.headIndices h) : i < 5 := by
  rw [headIndices, List.mem_cons] at hi
  rcases hi with rfl | hi
  · decide
  · split_ifs at hi
    · simp only [List.mem_cons, List.not_mem_nil, or_false] at hi
      omega
    · exact absurd hi List.not_mem_nil

theorem receive_congr (hconv : h.conv = h'.conv) (hcmd : h.cmd = h'.cmd) :
    c.receive lib serverConvIndex h data = c.receive lib serverConvIndex h' data := by
  have htype : h.type = h'.type := congrArg KcpMsgType.ofCode hcmd
  have hcheck : c.checkControlMessage lib serverConvIndex h
      = c.checkControlMessage lib serverConvIndex h' := by
    simp only [checkControlMessage, htype, hconv]
  simp only [receive, hcheck]

theorem receive_heartbeat (hh : h.type = some .heartbeat) :
    c.receive lib serverConvIndex h data = ⟨c, serverConvIndex, [], true⟩ := by
  have hcheck : c.checkControlMessage lib serverConvIndex h
      = ⟨c, serverConvIndex, [], true⟩ := by
    rw [checkControlMessage, hh]
    cases c.connStatus <;> rfl
  rw [receive, hcheck]
  rfl

theorem receive_opened_response (hopen : c.connStatus = .opened)
    (hh : h.type = some .shakehandResponse) :
    (c.receive lib serverConvIndex h data).conn.connStatus = .kcpReady := by
  rw [receive_of_open lib hopen, hh]
  rfl

theorem receive_ready_request (hready : c.connStatus = .kcpReady) (hsock : c.kcpSock = true)
    (hh : h.type = some .shakehandRequest) :
    (c.receive lib serverConvIndex h data).sent ≠ [] := by
  rw [receive, checkControlMessage, hready, hh]
  dsimp only
  rw [if_pos rfl, shakehandResponse, sendControl]
  split_ifs <;> simp_all [initKcp]

/-- A connection that is neither open nor ready hands on what is no control message, and does
nothing else. -/
theorem receive_inactive (hc : ¬c.Active) :
    c.receive lib serverConvIndex h data
      = match h.type with
        | some .goodbye | none => ⟨c.handleReceive lib data, serverConvIndex, [], false⟩
        | _ => ⟨c, serverConvIndex, [], true⟩ := by
  rw [Active, not_or] at hc
  rw [receive, checkControlMessage]
  split
  · exact absurd ‹_› hc.1
  · exact absurd ‹_› hc.2
  · rcases h.type with _ | t
    · rfl
    · cases t <;> rfl

end Heads

/-! ## The socket of a connection -/

section Socket

variable {κ : Type*} (lib : Ikcp κ) {c c' : KcpConnection κ}

theorem kcpSock_drain (dataLen fuel recvLen : ℕ) (c : KcpConnection κ) (k : κ) :
    (drain lib dataLen fuel recvLen c k).kcpSock = c.kcpSock := by
  induction fuel generalizing recvLen c k with
  | zero => rfl
  | succ fuel ih =>
    rw [drain]
    split_ifs
    · split
      · split_ifs
        · exact ih _ _ _
        · rfl
      · rfl
    · rfl

theorem kcpSock_checkControlMessage (c : KcpConnection κ) (serverConvIndex : UInt32)
    (head : KcpMsgHead) :
    (c.checkControlMessage lib serverConvIndex head).conn.kcpSock = c.kcpSock := by
  rw [checkControlMessage]
  split
  · split
    · obtain ⟨index, heq⟩ := requestOnOpen_eq lib c serverConvIndex head.conv
      rw [heq]
      dsimp only
      split_ifs <;> rfl
    · dsimp only
      split_ifs <;> rfl
    · rfl
    · rfl
  · split
    · dsimp only
      split_ifs <;> rfl
    · dsimp only
      split_ifs <;> rfl
    · rfl
    · rfl
  · split <;> rfl

theorem kcpSock_receive (c : KcpConnection κ) (serverConvIndex : UInt32) (head : KcpMsgHead)
    (data : List UInt8) : (c.receive lib serverConvIndex head data).conn.kcpSock = c.kcpSock := by
  rw [receive]
  split_ifs
  · exact kcpSock_checkControlMessage lib c serverConvIndex head
  · rw [← kcpSock_checkControlMessage lib c serverConvIndex head, handleReceive]
    dsimp only
    split
    · rfl
    · split_ifs
      · rfl
      · exact kcpSock_drain lib _ _ _ _ _

theorem Socketed.keep (hc : c.Socketed) (hstatus : c'.connStatus = c.connStatus)
    (hsock : c'.kcpSock = c.kcpSock) : c'.Socketed := by
  intro hactive
  rw [Active, hstatus] at hactive
  exact hsock.trans (hc hactive)

theorem socketed_release (c : KcpConnection κ) : c.release.Socketed := by
  rintro (hopen | hready)
  · rw [connStatus_release] at hopen
    exact absurd hopen (by decide)
  · exact absurd hready (release_not_ready c)

theorem Socketed.receive (hc : c.Socketed) (serverConvIndex : UInt32) (head : KcpMsgHead)
    (data : List UInt8) : (c.receive lib serverConvIndex head data).conn.Socketed := by
  intro hactive
  rw [kcpSock_receive]
  rcases receive_cases lib c serverConvIndex head data with hr | hr | hr
  · exact hc (.inl hr.opened)
  · exact hc (.inr hr.before)
  · rw [Active, hr.status] at hactive
    exact hc hactive

theorem Socketed.step {a : Action} (hc : c.Socketed) (hstep : (system lib).step c a = some c') :
    c'.Socketed := by
  cases a with
  | receive serverConvIndex head data =>
    obtain ⟨-, hsome⟩ := Option.ite_none_right_eq_some.mp hstep
    obtain rfl := Option.some.inj hsome
    exact hc.receive lib serverConvIndex head data
  | send data =>
    obtain rfl := Option.some.inj hstep
    refine hc.keep (send_undisturbed lib c data).status ?_
    rw [KcpConnection.send]
    split_ifs
    · split <;> rfl
    · rfl
  | tick now =>
    obtain ⟨-, hsome⟩ := Option.ite_none_right_eq_some.mp hstep
    obtain rfl := Option.some.inj hsome
    refine hc.keep (tick_undisturbed lib c now).status ?_
    rw [KcpConnection.tick]
    split
    · split_ifs <;> rfl
    · rfl
  | heartbeat elapseTime =>
    obtain ⟨-, hsome⟩ := Option.ite_none_right_eq_some.mp hstep
    obtain rfl := Option.some.inj hsome
    rw [heartbeatFires]
    split_ifs
    · exact socketed_release _
    · exact hc.keep rfl rfl
    · exact hc
  | disconnect =>
    obtain rfl := Option.some.inj hstep
    rw [KcpConnection.disconnect]
    split_ifs
    · rintro (h | h)
      · exact absurd h (by simp)
      · exact absurd h (by simp)
    · exact hc
  | disconnectDone =>
    obtain ⟨-, hsome⟩ := Option.ite_none_right_eq_some.mp hstep
    obtain rfl := Option.some.inj hsome
    exact socketed_release _

/-- **A connection has a socket while it is open or ready**, in every run. -/
theorem socketed_of_run {e : Side} {cid : UInt32} {reconn : Bool} {as : List Action}
    (hrun : (system lib).run (begun e cid reconn) as = some c) : c.Socketed := by
  refine StepSystem.invariant_of_run (I := Socketed) ?_ (fun c a c' hc hstep _ ↦ hc.step lib hstep)
    (StepSystem.along_of_forall (fun _ _ ↦ trivial) _ _) hrun
  intro _
  cases e <;> rfl

end Socket

/-! ## Short datagrams -/

section Short

variable {κ : Type*} (lib : Ikcp κ)

theorem exists_log_drain (dataLen fuel recvLen : ℕ) (c : KcpConnection κ) (k : κ) :
    ∃ l, (drain lib dataLen fuel recvLen c k).log = c.log ++ l := by
  induction fuel generalizing recvLen c k with
  | zero => exact ⟨[], (List.append_nil _).symm⟩
  | succ fuel ih =>
    rw [drain]
    split_ifs
    · split
      · split_ifs
        · rename_i k' msg _ _
          obtain ⟨l, hl⟩ := ih (recvLen + (lib.peeksize k).toNat)
            { c with log := c.log ++ [.package msg, .recv] } k'
          exact ⟨[.package msg, .recv] ++ l, by rw [hl, List.append_assoc]⟩
        · exact ⟨[], (List.append_nil _).symm⟩
      · exact ⟨[], (List.append_nil _).symm⟩
    · exact ⟨[], (List.append_nil _).symm⟩

end Short

variable {io : IkcpIo} (hrefuse : ∀ k d, d.length < ikcpOverhead → io.input k d = (k, -1))
  {c : KcpConnection Ikcpcb} {d : List UInt8}
include hrefuse

/-- **A short datagram changes nothing** exactly if there is no message to take. -/
theorem forget_handleReceive_iff (hpos : 0 < d.length) (hshort : d.length < ikcpOverhead) :
    (c.handleReceive io.lib d).forget = c.forget
      ↔ ∀ k ∈ c.kcp, ¬(0 < k.peeksize ∧ k.peeksize ≤ kMaxMessageLength) := by
  rw [handleReceive]
  cases hk : c.kcp with
  | none =>
    have hkeep : ({ c with log := c.log ++ [.receive d] } : KcpConnection Ikcpcb).forget
        = c.forget := by simp [forget]
    rw [hk] at hkeep
    exact iff_of_true hkeep (by simp)
  | some k =>
    have hinput : io.lib.input k d = (k, -1) := hrefuse k d hshort
    have hkeep : ({ c with kcp := some k, log := c.log ++ [.receive d] } :
        KcpConnection Ikcpcb).forget = c.forget := by
      rw [← hk]
      simp [forget]
    obtain ⟨n, hn⟩ : ∃ n, d.length = n + 1 := Nat.exists_eq_add_of_le' hpos
    dsimp only
    rw [hinput]
    dsimp only
    rw [if_neg (by decide), hn, drain]
    simp only [Option.mem_some_iff, forall_eq']
    by_cases hpeek : 0 < k.peeksize
    · rw [if_pos ⟨Nat.succ_pos n, hpeek⟩]
      rcases Ikcpcb.recv_cases hpeek with ⟨hfit, k', msg, hrecv, hmsg⟩ | ⟨hlong, hrecv⟩
      · -- the message stays in the history, whatever the loop does after it
        have hrecv' : io.lib.recv k kMaxMessageLength = (k', some msg) := hrecv
        rw [hrecv']
        dsimp only
        rw [if_pos hmsg]
        refine iff_of_false (fun hsame ↦ ?_) fun h ↦ h ⟨hpeek, hfit⟩
        obtain ⟨l, hl⟩ := exists_log_drain io.lib (n + 1) n (0 + (io.lib.peeksize k).toNat)
          { c with log := c.log ++ [.receive d] ++ [.package msg, .recv] } k'
        have hlog := congrArg KcpConnection.log hsame
        simp only [forget, hk] at hlog hl
        rw [hl] at hlog
        simp at hlog
      · have hrecv' : io.lib.recv k kMaxMessageLength = (k, none) := hrecv
        rw [hrecv']
        exact iff_of_true hkeep fun h ↦ by omega
    · rw [if_neg fun h ↦ hpeek h.2]
      exact iff_of_true hkeep fun h ↦ hpeek h.1

/-- A head whose command is left over says nothing only to a quiet connection. -/
theorem same_iff_quiet {head : Memory UInt8 → KcpMsgHead} {serverConvIndex : UInt32}
    (hsock : c.Socketed) (hpos : 0 < d.length) (hshort : d.length < ikcpOverhead)
    (hstale : ∀ cmd, ∃ m, (head m).cmd = cmd) :
    (∀ m m', (c.receive io.lib serverConvIndex (head m) d).seen
        = (c.receive io.lib serverConvIndex (head m') d).seen) ↔ c.Quiet := by
  have htype : ∀ t : KcpMsgType, ∃ m, (head m).type = some t := by
    intro t
    obtain ⟨m, hm⟩ := hstale t.code
    exact ⟨m, by rw [KcpMsgHead.type, hm, t.ofCode_code]⟩
  obtain ⟨idle, hidle⟩ := htype .heartbeat
  constructor
  · intro hsame
    have hinactive : ¬c.Active := by
      rintro (hopen | hready)
      -- an open connection becomes ready by a response, a ready one answers a request
      · obtain ⟨m, hm⟩ := htype .shakehandResponse
        have hstatus := congrArg (fun s ↦ s.1.connStatus) (hsame m idle)
        rw [receive_heartbeat io.lib hidle] at hstatus
        have hready : c.connStatus = .kcpReady :=
          hstatus.symm.trans (receive_opened_response io.lib hopen hm)
        rw [hopen] at hready
        exact absurd hready (by decide)
      · obtain ⟨m, hm⟩ := htype .shakehandRequest
        have hsent := congrArg (fun s ↦ s.2.2) (hsame m idle)
        rw [receive_heartbeat io.lib hidle] at hsent
        exact receive_ready_request io.lib hready (hsock (.inr hready)) hm hsent
    -- a command that is none hands the datagram on
    obtain ⟨m, hm⟩ := hstale 0
    have hnone : (head m).type = none := by rw [KcpMsgHead.type, hm]; rfl
    have hconn := congrArg (fun s ↦ s.1) (hsame m idle)
    rw [receive_heartbeat io.lib hidle, receive_inactive io.lib hinactive, hnone] at hconn
    exact ⟨hinactive, (forget_handleReceive_iff hrefuse hpos hshort).mp hconn⟩
  · rintro ⟨hinactive, hempty⟩
    have hkeep := (forget_handleReceive_iff hrefuse hpos hshort).mpr hempty
    have hseen : ∀ m, (c.receive io.lib serverConvIndex (head m) d).seen
        = (c.forget, serverConvIndex, []) := by
      intro m
      rw [receive_inactive io.lib hinactive]
      split
      · rw [Checked.seen, hkeep]
      · rw [Checked.seen, hkeep]
      · rfl
    intro m m'
    rw [hseen, hseen]

/-- The datagram decides exactly if it has the command, or the connection is quiet. -/
theorem same_iff {head : Memory UInt8 → KcpMsgHead} {serverConvIndex : UInt32} {n : ℕ}
    (hn : n ≤ ikcpOverhead) (hsock : c.Socketed) (hpos : 0 < d.length)
    (hown : n ≤ d.length → ∀ m m', (head m).conv = (head m').conv ∧ (head m).cmd = (head m').cmd)
    (hstale : d.length < n → ∀ cmd, ∃ m, (head m).cmd = cmd) :
    (∀ m m', (c.receive io.lib serverConvIndex (head m) d).seen
        = (c.receive io.lib serverConvIndex (head m') d).seen) ↔ n ≤ d.length ∨ c.Quiet := by
  rcases Nat.lt_or_ge d.length n with hfew | henough
  · rw [or_iff_right (Nat.not_le.mpr hfew)]
    exact same_iff_quiet hrefuse hsock hpos (Nat.lt_of_lt_of_le hfew hn) (hstale hfew)
  · refine iff_of_true (fun m m' ↦ ?_) (.inl henough)
    obtain ⟨hconv, hcmd⟩ := hown henough m m'
    rw [receive_congr io.lib hconv hcmd]

end KcpConnection

/-! ## The buffers -/

theorem KcpMsgHead.ofBytes_read (m : Memory UInt8) :
    (ofBytes (m.read 0 8)).conv = UInt32.ofNat (Bytes.ofLittle (m.read 0 4))
      ∧ (ofBytes (m.read 0 8)).cmd = m 4 := by
  rw [ofBytes, m.take_read 0 (by decide)]
  exact ⟨rfl, rfl⟩

namespace KcpClient

variable {κ : Type*} {lib : Ikcp κ} {c : KcpClient κ} {d : List UInt8}

theorem seen_handle_eq_iff {m m' : Memory UInt8} :
    ({ c with recvBuffer := m }.handle lib d).seen = ({ c with recvBuffer := m' }.handle lib d).seen
      ↔ ((c.zeroed d).receive lib c.serverConvIndex ({ c with recvBuffer := m }.headSeen d) d).seen
        = ((c.zeroed d).receive lib c.serverConvIndex
            ({ c with recvBuffer := m' }.headSeen d) d).seen := by
  have hzeroed : ∀ m : Memory UInt8, { c with recvBuffer := m }.zeroed d = c.zeroed d :=
    fun _ ↦ rfl
  simp only [handle, hzeroed, read_filled, seen, KcpConnection.Checked.seen, Prod.mk.injEq,
    List.append_cancel_left_eq]

theorem headSeen_congr (h : 4 ≤ d.length) (m m' : Memory UInt8) :
    ({ c with recvBuffer := m }.headSeen d).conv = ({ c with recvBuffer := m' }.headSeen d).conv
      ∧ ({ c with recvBuffer := m }.headSeen d).cmd
        = ({ c with recvBuffer := m' }.headSeen d).cmd := by
  have hfilled : ∀ i ≤ d.length,
      { c with recvBuffer := m }.filled d i = { c with recvBuffer := m' }.filled d i := by
    intro i hi
    rcases Nat.lt_or_eq_of_le hi with hlt | rfl
    · have hstored := @Memory.write_congr _ m m' i 0 d hlt
      rw [Nat.zero_add] at hstored
      rw [filled, filled, Memory.write_before _ hlt, Memory.write_before _ hlt, hstored]
    · exact Memory.write_congr _ _ (i := 0) Nat.one_pos
  simp only [headSeen, KcpMsgHead.ofBytes_read]
  refine ⟨?_, hfilled 4 h⟩
  rw [Memory.read_congr _ fun i hi ↦ hfilled (0 + i) (by omega)]

theorem exists_headSeen (h : d.length < 4) (cmd : UInt8) :
    ∃ m, ({ c with recvBuffer := m }.headSeen d).cmd = cmd := by
  refine ⟨fun _ ↦ cmd, ?_⟩
  rw [headSeen, (KcpMsgHead.ofBytes_read _).2, filled,
    Memory.write_behind _ (by rw [List.length_singleton]; omega), Memory.write_behind _ (by omega)]

theorem inside_iff : (∀ m : Memory UInt8, ∀ i ∈ { c with recvBuffer := m }.touched d,
    i < kMaxMessageLength) ↔ d.length < kMaxMessageLength := by
  constructor
  · intro h
    exact h c.recvBuffer _ (List.mem_append_right _ List.mem_cons_self)
  · intro h m i hi
    rw [touched, List.mem_append, List.mem_range, List.mem_cons] at hi
    rcases hi with hi | rfl | hi
    · exact Nat.lt_trans hi h
    · exact h
    · exact Nat.lt_trans (KcpConnection.mem_headIndices_lt hi) (by decide)

end KcpClient

namespace KcpListener

variable {κ ε : Type*} {lib : Ikcp κ} {l : KcpListener κ ε} {pt : ε} {d : List UInt8}

theorem seen_handle_eq_iff [DecidableEq ε] {m m' : Memory UInt8} :
    ({ l with recvBuffer := m }.handle lib pt d).seen
        = ({ l with recvBuffer := m' }.handle lib pt d).seen
      ↔ ((l.contact pt).receive lib l.serverConvIndex
            ({ l with recvBuffer := m }.headSeen d) d).seen
        = ((l.contact pt).receive lib l.serverConvIndex
            ({ l with recvBuffer := m' }.headSeen d) d).seen := by
  simp only [handle, seen, Memory.read_write, KcpConnection.Checked.seen, Prod.mk.injEq,
    List.append_cancel_left_eq, true_and]
  have hpair : Function.Injective fun x : List UInt8 ↦ (pt, x) := fun _ _ h ↦ (Prod.mk.inj h).2
  refine and_congr ?_ (and_congr_right fun _ ↦ (List.map_injective_iff.mpr hpair).eq_iff)
  constructor
  · intro h
    have hpt := congrFun h pt
    rw [Function.update_self, Function.update_self] at hpt
    exact Option.some.inj hpt
  · intro h
    funext pt'
    by_cases hpt : pt' = pt
    · subst hpt
      rw [Function.update_self, Function.update_self, Option.map_some, Option.map_some]
      exact congrArg some h
    · rw [Function.update_of_ne hpt, Function.update_of_ne hpt]

theorem headSeen_congr (h : 5 ≤ d.length) (m m' : Memory UInt8) :
    ({ l with recvBuffer := m }.headSeen d).conv = ({ l with recvBuffer := m' }.headSeen d).conv
      ∧ ({ l with recvBuffer := m }.headSeen d).cmd
        = ({ l with recvBuffer := m' }.headSeen d).cmd := by
  have hfront : ∀ i < d.length, m.write 0 d i = m'.write 0 d i := by
    intro i hi
    have hstored := @Memory.write_congr _ m m' i 0 d hi
    rwa [Nat.zero_add] at hstored
  simp only [headSeen, KcpMsgHead.ofBytes_read]
  refine ⟨?_, hfront 4 h⟩
  rw [Memory.read_congr _ fun i hi ↦ hfront (0 + i) (by omega)]

theorem exists_headSeen (h : d.length < 5) (cmd : UInt8) :
    ∃ m, ({ l with recvBuffer := m }.headSeen d).cmd = cmd := by
  refine ⟨fun _ ↦ cmd, ?_⟩
  rw [headSeen, (KcpMsgHead.ofBytes_read _).2, Memory.write_behind _ (by omega)]

theorem inside (hmax : d.length ≤ maxReceiveBufferSize) (m : Memory UInt8) :
    ∀ i ∈ { l with recvBuffer := m }.touched pt d, i < maxReceiveBufferSize := by
  intro i hi
  rw [touched, List.mem_append, List.mem_range] at hi
  rcases hi with hi | hi
  · exact Nat.lt_of_lt_of_le hi hmax
  · exact Nat.lt_trans (KcpConnection.mem_headIndices_lt hi) (by decide)

end KcpListener

section Judged

variable {io : IkcpIo} (hrefuse : ∀ k d, d.length < ikcpOverhead → io.input k d = (k, -1))
  {d : List UInt8}
include hrefuse

theorem clientJudges_iff (hpos : 0 < d.length) {c : KcpClient Ikcpcb} (hsock : c.conn.Socketed) :
    c.Judges io.lib d ↔ d.length < kMaxMessageLength ∧ (4 ≤ d.length ∨ c.conn.Quiet) := by
  -- a datagram for which there is no room behind it is out of the question on both sides
  have hinside := @KcpClient.inside_iff _ c d
  by_cases hroom : d.length < kMaxMessageLength
  · have hsame : (∀ m m' : Memory UInt8, ({ c with recvBuffer := m }.handle io.lib d).seen
        = ({ c with recvBuffer := m' }.handle io.lib d).seen) ↔ 4 ≤ d.length ∨ c.conn.Quiet := by
      simp only [KcpClient.seen_handle_eq_iff, KcpClient.zeroed, if_pos hroom]
      exact KcpConnection.same_iff hrefuse (by decide) hsock hpos KcpClient.headSeen_congr
        KcpClient.exists_headSeen
    rw [← hsame, ← hinside]
    exact ⟨fun h ↦ ⟨h.inside, h.same⟩, fun h ↦ ⟨h.2, h.1⟩⟩
  · exact iff_of_false (fun h ↦ hroom (hinside.mp h.inside)) fun h ↦ hroom h.1

theorem listenerJudges_iff {ε : Type*} [DecidableEq ε] (hpos : 0 < d.length)
    (hmax : d.length ≤ kMaxMessageLength) {l : KcpListener Ikcpcb ε} {pt : ε}
    (hsock : (l.contact pt).Socketed) :
    l.Judges io.lib pt d ↔ 5 ≤ d.length ∨ (l.contact pt).Quiet := by
  have hsame : (∀ m m' : Memory UInt8, ({ l with recvBuffer := m }.handle io.lib pt d).seen
      = ({ l with recvBuffer := m' }.handle io.lib pt d).seen)
        ↔ 5 ≤ d.length ∨ (l.contact pt).Quiet := by
    simp only [KcpListener.seen_handle_eq_iff]
    exact KcpConnection.same_iff hrefuse (by decide) hsock hpos KcpListener.headSeen_congr
      KcpListener.exists_headSeen
  rw [← hsame]
  exact ⟨fun h ↦ h.same, fun h ↦ ⟨h, KcpListener.inside hmax⟩⟩

end Judged

/-- **Which datagrams are judged by their own bytes.** To a client it is one with four bytes or more
that leaves room for the zero, to a listener one with five bytes or more; a shorter one only if the
connection is quiet. -/
theorem judges_iff {ε : Type*} [DecidableEq ε] (io : IkcpIo)
    (hrefuse : ∀ k d, d.length < ikcpOverhead → io.input k d = (k, -1)) {d : List UInt8}
    (hpos : 0 < d.length) (hmax : d.length ≤ kMaxMessageLength) :
    (∀ c : KcpClient Ikcpcb, c.conn.Socketed →
        (c.Judges io.lib d ↔ d.length < kMaxMessageLength ∧ (4 ≤ d.length ∨ c.conn.Quiet)))
      ∧ ∀ (l : KcpListener Ikcpcb ε) (pt : ε), (l.contact pt).Socketed →
        (l.Judges io.lib pt d ↔ 5 ≤ d.length ∨ (l.contact pt).Quiet) :=
  ⟨fun _ hsock ↦ clientJudges_iff hrefuse hpos hsock,
    fun _ _ hsock ↦ listenerJudges_iff hrefuse hpos hmax hsock⟩

theorem judges_iff_of_run {ε : Type*} [DecidableEq ε] {io : IkcpIo}
    (hrefuse : ∀ k d, d.length < ikcpOverhead → io.input k d = (k, -1)) {d : List UInt8}
    (hpos : 0 < d.length) (hmax : d.length ≤ kMaxMessageLength) {e : Side} {cid : UInt32}
    {reconn : Bool} {as : List KcpConnection.Action} {conn : KcpConnection Ikcpcb}
    (hrun : (KcpConnection.system io.lib).run (.begun e cid reconn) as = some conn) :
    (∀ c : KcpClient Ikcpcb, c.conn = conn →
        (c.Judges io.lib d ↔ d.length < kMaxMessageLength ∧ (4 ≤ d.length ∨ conn.Quiet)))
      ∧ ∀ (l : KcpListener Ikcpcb ε) (pt : ε), l.contact pt = conn →
        (l.Judges io.lib pt d ↔ 5 ≤ d.length ∨ conn.Quiet) := by
  have hsock := KcpConnection.socketed_of_run io.lib hrun
  refine ⟨fun c hc ↦ ?_, fun l pt hl ↦ ?_⟩
  · subst hc
    exact clientJudges_iff hrefuse hpos hsock
  · subst hl
    exact listenerJudges_iff hrefuse hpos hmax hsock

/-- A client that has called `connect`. -/
def newClient : KcpClient Ikcpcb := ⟨.begun .client 7 true, 0x1000, fun _ ↦ 0, []⟩

/-- A listener without connections. -/
def newListener : KcpListener Ikcpcb Unit := ⟨fun _ ↦ none, 0x1000, 1024, fun _ ↦ 0, []⟩

/-- A heartbeat is long enough for both. -/
theorem heartbeat_judged :
    newClient.Judges IkcpIo.silent.lib (KcpMsgHead.control .heartbeat 7).bytes
      ∧ newListener.Judges IkcpIo.silent.lib () (KcpMsgHead.control .heartbeat 7).bytes :=
  have hboth := @judges_iff Unit _ IkcpIo.silent (fun _ _ _ ↦ rfl)
    (KcpMsgHead.control .heartbeat 7).bytes (by decide) (by decide)
  ⟨(hboth.1 newClient fun _ ↦ rfl).mpr ⟨by decide, .inl (by decide)⟩,
    (hboth.2 newListener () fun _ ↦ rfl).mpr (.inl (by decide))⟩

/-- One byte to a client, four to a listener: the command is left over. And the zero behind 4096
bytes is stored outside the buffer. -/
theorem stale_command :
    ¬newClient.Judges IkcpIo.silent.lib [7] ∧ ¬newListener.Judges IkcpIo.silent.lib () [7, 0, 0, 0]
      ∧ ¬newClient.Judges IkcpIo.silent.lib (List.replicate 4096 0) := by
  have hopen : ¬newClient.conn.Quiet := fun h ↦ h.1 (.inl rfl)
  have hcontact : ¬(newListener.contact ()).Quiet := fun h ↦ h.1 (.inl rfl)
  have hrefuse : ∀ k d, d.length < ikcpOverhead → IkcpIo.silent.input k d = (k, -1) :=
    fun _ _ _ ↦ rfl
  refine ⟨fun h ↦ ?_, fun h ↦ ?_, fun h ↦ ?_⟩
  · obtain ⟨-, hfour | hquiet⟩ := (clientJudges_iff hrefuse (by decide) fun _ ↦ rfl).mp h
    · exact absurd hfour (by decide)
    · exact hopen hquiet
  · rcases (listenerJudges_iff hrefuse (by decide) (by decide) fun _ ↦ rfl).mp h with hfive | hquiet
    · exact absurd hfive (by decide)
    · exact hcontact hquiet
  · have hinside := (KcpClient.inside_iff.mp h.inside)
    rw [List.length_replicate] at hinside
    exact absurd hinside (by decide)

end Knet.Kcp
