import Knet.Kcp.Connection
import Mathlib.Algebra.Ring.Int.Defs

/-!
# The `kcp` object

The state of an `ikcpcb` and those functions of `ikcp.c` that a connection calls and that do not
talk to the network: `ikcp_create`, `ikcp_nodelay`, `ikcp_send`, `ikcp_peeksize` and `ikcp_recv`.
What `ikcp_input` and `ikcp_update` do with the protocol is left open (`IkcpIo`).

A queue is the list of its segments, and its counter (`nsnd_que` and so on) the length of the list.
-/

namespace Knet.Kcp

/-- `IKCPSEG`. The length of a segment is that of its data. -/
structure Ikcpseg where
  conv : UInt32 := 0
  cmd : UInt32 := 0
  frg : UInt32 := 0
  wnd : UInt32 := 0
  ts : UInt32 := 0
  sn : UInt32 := 0
  una : UInt32 := 0
  resendts : UInt32 := 0
  rto : UInt32 := 0
  fastack : UInt32 := 0
  xmit : UInt32 := 0
  data : List UInt8
  deriving DecidableEq, Repr

/-- What an object has to send and has received: the queued, in-flight and reassembled segments, and
the sequence numbers. -/
structure Transport where
  sndUna : UInt32 := 0
  sndNxt : UInt32 := 0
  rcvNxt : UInt32 := 0
  sndQueue : List Ikcpseg := []
  rcvQueue : List Ikcpseg := []
  sndBuf : List Ikcpseg := []
  rcvBuf : List Ikcpseg := []
  deriving DecidableEq, Repr

/-- `IKCPCB`, with the values that `ikcp_create` gives to its fields. -/
structure Ikcpcb extends Transport where
  conv : UInt32
  mtu : UInt32 := 1400
  mss : UInt32 := 1400 - 24
  state : UInt32 := 0
  tsRecent : UInt32 := 0
  tsLastack : UInt32 := 0
  ssthresh : UInt32 := 2
  rxRttval : Int32 := 0
  rxSrtt : Int32 := 0
  rxRto : ℤ := 200
  rxMinrto : ℤ := 100
  sndWnd : UInt32 := 32
  rcvWnd : UInt32 := 128
  rmtWnd : UInt32 := 128
  cwnd : UInt32 := 0
  probe : UInt32 := 0
  current : UInt32 := 0
  interval : UInt32 := 100
  tsFlush : UInt32 := 100
  xmit : UInt32 := 0
  nodelay : UInt32 := 0
  updated : UInt32 := 0
  tsProbe : UInt32 := 0
  probeWait : UInt32 := 0
  deadLink : UInt32 := 20
  incr : UInt32 := 0
  acklist : List (UInt32 × UInt32) := []
  fastresend : ℤ := 0
  fastlimit : ℤ := 5
  nocwnd : ℤ := 0
  stream : ℤ := 0
  /-- Something was written past the end of `buffer`. -/
  overrun : Bool := false
  deriving DecidableEq, Repr

namespace Ikcpcb

/-- `ikcp_create`. -/
def create (conv : UInt32) : Ikcpcb := { conv := conv }

/-- `ikcp_nodelay`. A negative argument leaves its setting as it is. -/
def setNodelay (k : Ikcpcb) (nodelay interval resend nc : ℤ) : Ikcpcb :=
  let k := if 0 ≤ nodelay then
    { k with
      nodelay := UInt32.ofNat nodelay.toNat
      rxMinrto := if nodelay ≠ 0 then 30 else 100 } else k
  let k := if 0 ≤ interval then
    { k with interval := UInt32.ofNat (max 10 (min 5000 interval.toNat)) } else k
  let k := if 0 ≤ resend then { k with fastresend := resend } else k
  if 0 ≤ nc then { k with nocwnd := nc } else k

/-- `IKCP_WND_RCV`. -/
def wndRcv : ℕ := 128

/-- The segments of a message of `count` fragments. -/
def fragments (mss : ℕ) (stream : Bool) : ℕ → List UInt8 → List Ikcpseg
  | 0, _ => []
  | count + 1, data =>
    { data := data.take mss, frg := if stream then 0 else UInt32.ofNat count }
      :: fragments mss stream count (data.drop mss)

/-- The last segment of the send queue takes what still fits into it, in stream mode. -/
def extendLast (mss : ℕ) (queue : List Ikcpseg) (data : List UInt8) :
    List Ikcpseg × List UInt8 :=
  match queue.getLast? with
  | some old =>
    if old.data.length < mss then
      let extend := min data.length (mss - old.data.length)
      (queue.dropLast ++ [{ data := old.data ++ data.take extend }], data.drop extend)
    else (queue, data)
  | none => (queue, data)

/-- `ikcp_send`, with its result. -/
def send (k : Ikcpcb) (data : List UInt8) : Ikcpcb × ℤ :=
  let mss := k.mss.toNat
  let (queue, data) := if k.stream ≠ 0 then extendLast mss k.sndQueue data else (k.sndQueue, data)
  let k := { k with sndQueue := queue }
  if k.stream ≠ 0 ∧ data = [] then (k, 0)
  else
    let count := if data.length ≤ mss then 1 else (data.length + mss - 1) / mss
    if wndRcv ≤ count then (k, -2)
    else ({ k with sndQueue := queue ++ fragments mss (k.stream ≠ 0) count data }, 0)

/-- The segments of the first message of a queue, up to the fragment with the number zero, and what
stands behind it. -/
def splitMessage : List Ikcpseg → List Ikcpseg × List Ikcpseg
  | [] => ([], [])
  | seg :: segs =>
    if seg.frg = 0 then ([seg], segs)
    else (seg :: (splitMessage segs).1, (splitMessage segs).2)

/-- The bytes of the first message of a queue. -/
def message (queue : List Ikcpseg) : List UInt8 := (splitMessage queue).1.flatMap (·.data)

/-- `ikcp_peeksize`. -/
def peeksize (k : Ikcpcb) : ℤ :=
  match k.rcvQueue with
  | [] => -1
  | seg :: segs =>
    if seg.frg = 0 then seg.data.length
    else if UInt32.ofNat (seg :: segs).length < seg.frg + 1 then -1
    else (message (seg :: segs)).length

/-- What is next in order moves from the receive buffer to the receive queue. -/
def moveAvailable (k : Ikcpcb) : List Ikcpseg → Ikcpcb
  | [] => { k with rcvBuf := [] }
  | seg :: segs =>
    if seg.sn = k.rcvNxt ∧ UInt32.ofNat k.rcvQueue.length < k.rcvWnd then
      moveAvailable { k with rcvQueue := k.rcvQueue ++ [seg], rcvNxt := k.rcvNxt + 1 } segs
    else { k with rcvBuf := seg :: segs }

/-- `IKCP_ASK_TELL`. -/
def askTell : UInt32 := 2

/-- `ikcp_recv` into a buffer of `len` bytes, with the message, if there is one. -/
def recv (k : Ikcpcb) (len : ℕ) : Ikcpcb × Option (List UInt8) :=
  if k.rcvQueue = [] ∨ k.peeksize < 0 ∨ (len : ℤ) < k.peeksize then (k, none)
  else
    let recover := k.rcvWnd ≤ UInt32.ofNat k.rcvQueue.length
    let msg := message k.rcvQueue
    let k := { k with rcvQueue := (splitMessage k.rcvQueue).2 }
    let k := k.moveAvailable k.rcvBuf
    let k := if UInt32.ofNat k.rcvQueue.length < k.rcvWnd ∧ recover then
      { k with probe := k.probe ||| askTell } else k
    (k, some msg)

theorem conv_send (k : Ikcpcb) (data : List UInt8) : (k.send data).1.conv = k.conv := by
  rw [send]
  dsimp only
  split_ifs <;> rfl

theorem conv_moveAvailable (k : Ikcpcb) (segs : List Ikcpseg) :
    (k.moveAvailable segs).conv = k.conv := by
  induction segs generalizing k with
  | nil => rfl
  | cons seg segs ih =>
    rw [moveAvailable]
    split_ifs
    · rw [ih]
    · rfl

theorem conv_recv (k : Ikcpcb) (len : ℕ) : (k.recv len).1.conv = k.conv := by
  rw [recv]
  dsimp only
  split_ifs
  · rfl
  · exact conv_moveAvailable _ _
  · exact conv_moveAvailable _ _

end Ikcpcb

/-- The part of `ikcp.c` that talks to the network. Of it a connection relies on this: it does not
touch the conversation id, and what it puts out are KCP segments. -/
structure IkcpIo where
  input : Ikcpcb → List UInt8 → Ikcpcb × ℤ
  update : Ikcpcb → UInt32 → Ikcpcb × List (List UInt8)
  conv_input : ∀ k data, (input k data).1.conv = k.conv
  conv_update : ∀ k now, (update k now).1.conv = k.conv
  type_update : ∀ k now, ∀ d ∈ (update k now).2, (KcpMsgHead.ofBytes d).type = none

/-- The functions of `ikcp.c`, with the settings that `init_kcp` makes. -/
def IkcpIo.lib (io : IkcpIo) : Ikcp Ikcpcb where
  create id := (Ikcpcb.create id).setNodelay 1 10 1 1
  conv := Ikcpcb.conv
  send := Ikcpcb.send
  input := io.input
  update := io.update
  peeksize := Ikcpcb.peeksize
  recv := Ikcpcb.recv
  conv_create _ := rfl
  conv_send := Ikcpcb.conv_send
  conv_input := io.conv_input
  conv_update := io.conv_update
  conv_recv := Ikcpcb.conv_recv
  type_update := io.type_update

/-- A network that takes nothing from an object and brings it nothing. -/
def IkcpIo.silent : IkcpIo where
  input k _ := (k, -1)
  update k _ := (k, [])
  conv_input _ _ := rfl
  conv_update _ _ := rfl
  type_update _ _ _ hd := absurd hd List.not_mem_nil

end Knet.Kcp
