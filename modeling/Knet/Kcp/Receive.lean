import Knet.Kcp.Connection
import Knet.Lib.Memory
import Knet.Lib.ReceiveLoop
import Mathlib.Logic.Function.Basic

/-!
# The receive loops of KCP

`KcpListener::do_receive` sorts the datagrams of its socket to connections, by their source, and
`KcpConnection::do_receive` handles what reaches the socket of a client. Both look for a control
message first, at the head of the receive buffer, where a datagram shorter than a head leaves bytes
of earlier ones standing; what is not a control message is handed to `handle_receive`.
-/

namespace Knet.Kcp

namespace KcpConnection

variable {κ : Type*} (lib : Ikcp κ)

/-- The datagrams with which `handle_receive` was called. -/
def received (c : KcpConnection κ) : List (List UInt8) :=
  c.log.filterMap fun | .receive data => some data | _ => none

theorem received_drain (dataLen fuel recvLen : ℕ) (c : KcpConnection κ) (k : κ) :
    (drain lib dataLen fuel recvLen c k).received = c.received := by
  induction fuel generalizing recvLen c k with
  | zero => rfl
  | succ fuel ih =>
    rw [drain]
    split_ifs
    · split
      · split_ifs
        · rw [ih]
          simp [received]
        · rfl
      · rfl
    · rfl

theorem received_handleReceive (c : KcpConnection κ) (data : List UInt8) :
    (c.handleReceive lib data).received = c.received ++ [data] := by
  have hlog : ({ c with log := c.log ++ [.receive data] } : KcpConnection κ).received
      = c.received ++ [data] := by simp [received]
  rw [handleReceive]
  dsimp only
  split
  · exact hlog
  · split_ifs
    · exact hlog
    · rw [received_drain]
      exact hlog

theorem received_checkControlMessage (c : KcpConnection κ) (serverConvIndex : UInt32)
    (head : KcpMsgHead) :
    (c.checkControlMessage lib serverConvIndex head).conn.received = c.received := by
  have hconnected : ∀ c : KcpConnection κ, c.connected.received = c.received := by
    intro c
    simp [received, connected]
  have hinit : ∀ c : KcpConnection κ, (c.initKcp lib).received = c.received := fun c ↦ rfl
  rw [checkControlMessage]
  split
  · split
    · obtain ⟨index, heq⟩ := requestOnOpen_eq lib c serverConvIndex head.conv
      rw [heq]
      dsimp only
      split_ifs
      · rw [hconnected, hinit]
        rfl
      · rfl
    · dsimp only
      rw [hconnected, hinit]
      split_ifs <;> rfl
    · rfl
    · rfl
  · split
    · dsimp only
      rw [hinit]
      split_ifs <;> rfl
    · dsimp only
      rw [hinit]
      split_ifs <;> rfl
    · rfl
    · rfl
  · split <;> rfl

/-- **What is not a control message is handed on**, once. -/
theorem received_receive (c : KcpConnection κ) (serverConvIndex : UInt32) (head : KcpMsgHead)
    (data : List UInt8) :
    (c.receive lib serverConvIndex head data).conn.received
      = c.received ++ if (c.checkControlMessage lib serverConvIndex head).control then []
        else [data] := by
  rw [receive]
  split_ifs
  · rw [received_checkControlMessage, List.append_nil]
  · rw [received_handleReceive, received_checkControlMessage]

end KcpConnection

/-! ## A client -/

/-- A connected `KcpConnection` with its socket. -/
structure KcpClient (κ : Type*) where
  conn : KcpConnection κ
  serverConvIndex : UInt32
  recvBuffer : Memory UInt8
  /-- The datagrams sent in answer. -/
  sent : List (List UInt8) := []

namespace KcpClient

variable {κ : Type*} (lib : Ikcp κ)

/-- The receive buffer when the handler looks at it: the datagram with a zero behind it. For a
datagram that fills the buffer the zero is stored behind the buffer (`zeroed`). -/
def filled (c : KcpClient κ) (d : List UInt8) : Memory UInt8 :=
  (c.recvBuffer.write 0 d).write d.length [0]

/-- The connection when the handler looks at it. Behind `recv_buffer` stands `conn_status`, and the
zero that is stored there makes it `CONN_IDLE`. -/
def zeroed (c : KcpClient κ) (d : List UInt8) : KcpConnection κ :=
  if d.length < kMaxMessageLength then c.conn else { c.conn with connStatus := .idle }

/-- The head that `check_control_message` sees. -/
def headSeen (c : KcpClient κ) (d : List UInt8) : KcpMsgHead := .ofBytes ((c.filled d).read 0 8)

/-- The handler's work, `check_control_message` and `handle_receive`. -/
def handle (c : KcpClient κ) (d : List UInt8) : KcpClient κ :=
  let r := (c.zeroed d).receive lib c.serverConvIndex (c.headSeen d) ((c.filled d).read 0 d.length)
  { conn := r.conn, serverConvIndex := r.serverConvIndex, recvBuffer := c.filled d,
    sent := c.sent ++ r.sent }

/-- `do_receive` of a connected `KcpConnection`. Datagrams from any endpoint are its own. -/
def loop : ReceiveLoop (KcpClient κ) Unit UInt8 where
  handle c _ d := c.handle lib d
  reject c _ := c
  isUser c _ d :=
    !((c.zeroed d).checkControlMessage lib c.serverConvIndex (c.headSeen d)).control
  registered _ _ := true
  inbox c _ := c.conn.received

theorem read_filled (c : KcpClient κ) (d : List UInt8) : (c.filled d).read 0 d.length = d := by
  rw [filled, Memory.read_write_of_le _ _ (by omega), Memory.read_write]

theorem received_zeroed (c : KcpClient κ) (d : List UInt8) :
    (c.zeroed d).received = c.conn.received := by
  rw [zeroed]
  split_ifs
  · rfl
  · rfl

theorem sorts_loop : (loop lib).Sorts := by
  refine ⟨fun c i d j ↦ rfl, fun c i d j ↦ ?_⟩
  simp only [loop, handle, read_filled, KcpConnection.received_receive, received_zeroed]
  cases ((c.zeroed d).checkControlMessage lib c.serverConvIndex (c.headSeen d)).control
  · simp
  · simp

end KcpClient

/-! ## A listener -/

/-- A `KcpListener`. -/
structure KcpListener (κ ε : Type*) where
  connections : ε → Option (KcpConnection κ)
  serverConvIndex : UInt32
  /-- The counter from which the constructor of a connection takes its id. -/
  index : ℕ
  recvBuffer : Memory UInt8
  /-- The datagrams sent in answer. -/
  sent : List (ε × List UInt8) := []

namespace KcpListener

variable {κ ε : Type*} (lib : Ikcp κ)

/-- `find_connection`, or the connection that is created at the first contact. -/
def contact (l : KcpListener κ ε) (pt : ε) : KcpConnection κ :=
  match l.connections pt with
  | some conn => conn
  | none => .listening (UInt32.ofNat (l.index + 1))

/-- The head that `check_control_message` sees. -/
def headSeen (l : KcpListener κ ε) (d : List UInt8) : KcpMsgHead :=
  .ofBytes ((l.recvBuffer.write 0 d).read 0 8)

/-- The datagrams handed to the connection registered for the endpoint. -/
def handed (l : KcpListener κ ε) (pt : ε) : List (List UInt8) :=
  match l.connections pt with
  | some conn => conn.received
  | none => []

theorem received_contact (l : KcpListener κ ε) (pt : ε) :
    (l.contact pt).received = l.handed pt := by
  rw [contact, handed]
  cases l.connections pt with
  | some conn => rfl
  | none => rfl

variable [DecidableEq ε]

/-- The handler's work. -/
def handle (l : KcpListener κ ε) (pt : ε) (d : List UInt8) : KcpListener κ ε :=
  let buffer := l.recvBuffer.write 0 d
  let r := (l.contact pt).receive lib l.serverConvIndex (l.headSeen d) (buffer.read 0 d.length)
  { connections := Function.update l.connections pt (some r.conn)
    serverConvIndex := r.serverConvIndex
    index := if (l.connections pt).isSome then l.index else l.index + 1
    recvBuffer := buffer
    sent := l.sent ++ r.sent.map fun x ↦ (pt, x) }

/-- `do_receive` of a `KcpListener`. -/
def loop : ReceiveLoop (KcpListener κ ε) ε UInt8 where
  handle l pt d := l.handle lib pt d
  reject l _ := l
  isUser l pt d :=
    !((l.contact pt).checkControlMessage lib l.serverConvIndex (l.headSeen d)).control
  registered l pt := (l.connections pt).isSome
  inbox l pt := l.handed pt

theorem sorts_loop : (loop lib : ReceiveLoop (KcpListener κ ε) ε UInt8).Sorts := by
  refine ⟨fun l i d j ↦ ?_, fun l i d j ↦ ?_⟩
  · by_cases hj : j = i
    · subst hj
      simp [loop, handle]
    · simp [loop, handle, hj]
  · by_cases hj : j = i
    · subst hj
      simp only [loop, handle]
      nth_rewrite 1 [handed]
      simp only [Function.update_self]
      rw [KcpConnection.received_receive, received_contact, Memory.read_write]
      cases ((l.contact j).checkControlMessage lib l.serverConvIndex (l.headSeen d)).control
      · simp
      · simp
    · simp [loop, handle, handed, hj]

end KcpListener

end Knet.Kcp
