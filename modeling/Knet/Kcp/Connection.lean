import Knet.Lib.Bytes
import Mathlib.Data.Int.Basic

/-!
# A KCP connection

`KcpConnection`: the handshake that agrees on a conversation id before the two ends create their
`kcp` objects, and what the connection does with the datagrams, timers and calls that reach it.

The `kcp` object itself is a parameter (`Ikcp`). Of `ikcp.c` the connection relies on two things:
the conversation id of an object is the one it was created with, and the datagrams it puts out are
segments of the KCP protocol, whose commands are none of the control commands of a connection.

A datagram is the list of its bytes. Both a control message and a KCP segment start with the fields
of `KcpMsgHead`.
-/

namespace Knet.Kcp

/-! ## Messages -/

/-- `KcpMsgType`. -/
inductive KcpMsgType
  | shakehandRequest
  | shakehandResponse
  | heartbeat
  | goodbye
  deriving DecidableEq, Repr

/-- The value of the enumerator. -/
def KcpMsgType.code : KcpMsgType → UInt8
  | .shakehandRequest => 250
  | .shakehandResponse => 251
  | .heartbeat => 252
  | .goodbye => 253

/-- The enumerator with this value, if there is one. -/
def KcpMsgType.ofCode (cmd : UInt8) : Option KcpMsgType :=
  if cmd = 250 then some .shakehandRequest
  else if cmd = 251 then some .shakehandResponse
  else if cmd = 252 then some .heartbeat
  else if cmd = 253 then some .goodbye
  else none

theorem KcpMsgType.ofCode_code (t : KcpMsgType) : ofCode t.code = some t := by
  cases t <;> rfl

/-- `KcpMsgHead`, which is also `KcpShakeHandMsg` and `KcpHeartbeat`. -/
structure KcpMsgHead where
  conv : UInt32
  cmd : UInt8
  frg : UInt8 := 0
  wnd : UInt16 := 0
  deriving DecidableEq, Repr

namespace KcpMsgHead

/-- The object representation. -/
def bytes (h : KcpMsgHead) : List UInt8 :=
  Bytes.toLittle 4 h.conv.toNat ++ h.cmd :: h.frg :: Bytes.toLittle 2 h.wnd.toNat

/-- The head found at the front of a buffer. -/
def ofBytes (d : List UInt8) : KcpMsgHead where
  conv := UInt32.ofNat (Bytes.ofLittle (d.take 4))
  cmd := d.getD 4 0
  frg := d.getD 5 0
  wnd := UInt16.ofNat (Bytes.ofLittle ((d.drop 6).take 2))

/-- The type of a control message. -/
def type (h : KcpMsgHead) : Option KcpMsgType := KcpMsgType.ofCode h.cmd

/-- The control message of this type. -/
def control (t : KcpMsgType) (conv : UInt32) : KcpMsgHead := { conv := conv, cmd := t.code }

theorem ofBytes_bytes (h : KcpMsgHead) : ofBytes h.bytes = h := by
  have hconv : Bytes.ofLittle (h.bytes.take 4) = h.conv.toNat := by
    rw [bytes, List.take_left' (Bytes.length_toLittle _ _), Bytes.ofLittle_toLittle]
    exact Nat.mod_eq_of_lt h.conv.toNat_lt
  have hdrop : h.bytes.drop 4 = h.cmd :: h.frg :: Bytes.toLittle 2 h.wnd.toNat := by
    rw [bytes, List.drop_left' (Bytes.length_toLittle _ _)]
  have hwnd : Bytes.ofLittle ((h.bytes.drop 6).take 2) = h.wnd.toNat := by
    have : h.bytes.drop 6 = (h.bytes.drop 4).drop 2 := by rw [List.drop_drop]
    rw [this, hdrop]
    exact (Bytes.ofLittle_toLittle 2 _).trans (Nat.mod_eq_of_lt h.wnd.toNat_lt)
  rw [ofBytes, hconv, hwnd]
  cases h
  rw [UInt32.ofNat_toNat, UInt16.ofNat_toNat]
  rfl

theorem type_control (t : KcpMsgType) (conv : UInt32) : (control t conv).type = some t :=
  t.ofCode_code

end KcpMsgHead

/-! ## The `kcp` object -/

/-- The functions of `ikcp.c` that a connection calls. `send`, `input` and `recv` come with the
value they return, `update` with the datagrams it passes to the output function. -/
structure Ikcp (κ : Type*) where
  create : UInt32 → κ
  conv : κ → UInt32
  send : κ → List UInt8 → κ × ℤ
  input : κ → List UInt8 → κ × ℤ
  update : κ → UInt32 → κ × List (List UInt8)
  peeksize : κ → ℤ
  recv : κ → ℕ → κ × Option (List UInt8)
  conv_create : ∀ id, conv (create id) = id
  conv_send : ∀ k data, conv (send k data).1 = conv k
  conv_input : ∀ k data, conv (input k data).1 = conv k
  conv_update : ∀ k now, conv (update k now).1 = conv k
  conv_recv : ∀ k size, conv (recv k size).1 = conv k
  /-- What is put out are KCP segments, not control messages. -/
  type_update : ∀ k now, ∀ d ∈ (update k now).2, (KcpMsgHead.ofBytes d).type = none

/-! ## The connection -/

/-- `ConnectionStatus`. -/
inductive ConnectionStatus
  | idle
  | opened
  | kcpReady
  | closing
  | closed
  deriving DecidableEq, Repr

/-- One entry of the history of a connection object. -/
inductive Entry
  /-- `handle_event(EVT_CONNECT)`. -/
  | connect
  /-- `handle_event(EVT_DISCONNECT)`. -/
  | disconnect
  /-- `handle_event(EVT_RECV)`. -/
  | recv
  /-- `handle_receive` was called with this datagram. -/
  | receive (data : List UInt8)
  /-- `handle_package` was called with this message. -/
  | package (data : List UInt8)
  deriving DecidableEq, Repr

/-- The state of a connection. -/
structure KcpConnection (κ : Type*) where
  cid : UInt32
  connStatus : ConnectionStatus := .idle
  isPassive : Bool := false
  reconnectFlag : Bool := false
  /-- `kcp_sock` is set. -/
  kcpSock : Bool := false
  kcp : Option κ := none
  /-- `kcp_timerid` is a running timer. -/
  kcpTimer : Bool := false
  /-- `heartbeat_timerid` is a running timer. -/
  heartbeatTimer : Bool := false
  /-- The goodbye messages whose send has not completed. -/
  goodbyes : ℕ := 0
  log : List Entry := []

/-- `kMaxMessageLength`. -/
def kMaxMessageLength : ℕ := 4096

namespace KcpConnection

variable {κ : Type*} (lib : Ikcp κ)

/-- Send a control message, if there is a socket. -/
def sendControl (c : KcpConnection κ) (t : KcpMsgType) (id : UInt32) : List (List UInt8) :=
  if c.kcpSock then [(KcpMsgHead.control t id).bytes] else []

/-- `shakehand_request`. -/
def shakehandRequest (c : KcpConnection κ) (id : UInt32 := 0) : List (List UInt8) :=
  c.sendControl .shakehandRequest (if id = 0 then c.cid else id)

/-- `shakehand_response`. -/
def shakehandResponse (c : KcpConnection κ) (id : UInt32 := 0) : List (List UInt8) :=
  c.sendControl .shakehandResponse (if id = 0 then c.cid else id)

/-- `send_heartbeat`. -/
def sendHeartbeat (c : KcpConnection κ) : List (List UInt8) := c.sendControl .heartbeat c.cid

/-- `init_kcp`. -/
def initKcp (c : KcpConnection κ) : KcpConnection κ :=
  { c with kcp := some (lib.create c.cid), kcpTimer := true, connStatus := .kcpReady }

/-- `handle_event(EVT_CONNECT)`. -/
def connected (c : KcpConnection κ) : KcpConnection κ := { c with log := c.log ++ [.connect] }

/-- The outcome of `check_control_message`. -/
structure Checked (κ : Type*) where
  conn : KcpConnection κ
  /-- `server_conv_index`, a static variable of the function. -/
  serverConvIndex : UInt32
  /-- The datagrams sent to the other end. -/
  sent : List (List UInt8) := []
  /-- The value returned. -/
  control : Bool := true

/-- A handshake request in the status `CONN_OPEN`. -/
def requestOnOpen (c : KcpConnection κ) (serverConvIndex conv : UInt32) : Checked κ :=
  let allocate := c.isPassive ∧ conv = 0 ∧ c.cid = 0
  let c := if allocate then { c with cid := serverConvIndex } else c
  let serverConvIndex := if allocate then serverConvIndex + 1 else serverConvIndex
  let c := { c with cid := if conv = 0 then c.cid else conv }
  if c.cid ≠ 0 then ⟨(c.initKcp lib).connected, serverConvIndex, c.shakehandResponse c.cid, true⟩
  else ⟨c, serverConvIndex, [], true⟩

/-- `check_control_message`, given the head of the datagram. -/
def checkControlMessage (c : KcpConnection κ) (serverConvIndex : UInt32) (head : KcpMsgHead) :
    Checked κ :=
  match c.connStatus with
  | .opened =>
    match head.type with
    | some .shakehandRequest => c.requestOnOpen lib serverConvIndex head.conv
    | some .shakehandResponse =>
      let c := if c.cid = 0 then { c with cid := head.conv } else c
      ⟨(c.initKcp lib).connected, serverConvIndex, [], true⟩
    | some .heartbeat => ⟨c, serverConvIndex, [], true⟩
    -- the id is lost, or there never was one: ask for it
    | _ => ⟨c, serverConvIndex, c.shakehandRequest, true⟩
  | .kcpReady =>
    match head.type with
    | some .shakehandRequest =>
      let c := if head.conv ≠ 0 ∧ c.cid = 0 then { c with cid := head.conv } else c
      let c := ({ c with connStatus := .opened }).initKcp lib
      ⟨c, serverConvIndex, c.shakehandResponse c.cid, true⟩
    | some .shakehandResponse =>
      let c := if c.cid = 0 then { c with cid := head.conv } else c
      ⟨c.initKcp lib, serverConvIndex, [], true⟩
    | some .heartbeat => ⟨c, serverConvIndex, [], true⟩
    | _ => ⟨c, serverConvIndex, [], false⟩
  | _ =>
    match head.type with
    | some .goodbye | none => ⟨c, serverConvIndex, [], false⟩
    | _ => ⟨c, serverConvIndex, [], true⟩

/-- The loop of `handle_receive`. Each round that goes on adds at least one to `recvLen`, so that
`dataLen` rounds are enough. -/
def drain (dataLen : ℕ) : ℕ → ℕ → KcpConnection κ → κ → KcpConnection κ
  | 0, _, c, k => { c with kcp := some k }
  | fuel + 1, recvLen, c, k =>
    if recvLen < dataLen ∧ 0 < lib.peeksize k then
      match lib.recv k kMaxMessageLength with
      | (k', some msg) =>
        if 0 < msg.length then
          drain dataLen fuel (recvLen + (lib.peeksize k).toNat)
            { c with log := c.log ++ [.package msg, .recv] } k'
        else { c with kcp := some k' }
      | (k', none) => { c with kcp := some k' }
    else { c with kcp := some k }

/-- `IKCP_CMD_ACK`. -/
def ikcpCmdAck : ℤ := 82

/-- `handle_receive`. -/
def handleReceive (c : KcpConnection κ) (data : List UInt8) : KcpConnection κ :=
  let c : KcpConnection κ := { c with log := c.log ++ [.receive data] }
  match c.kcp with
  | none => c
  | some k =>
    let r := lib.input k data
    if r.2 = ikcpCmdAck then { c with kcp := some r.1 }
    else drain lib data.length data.length 0 c r.1

/-- What both receive loops do with a datagram of a connection. -/
def receive (c : KcpConnection κ) (serverConvIndex : UInt32) (head : KcpMsgHead)
    (data : List UInt8) : Checked κ :=
  let r := c.checkControlMessage lib serverConvIndex head
  if r.control then r else { r with conn := r.conn.handleReceive lib data }

/-- `send`: the connection, the datagrams sent, and the result. -/
def send (c : KcpConnection κ) (data : List UInt8) : KcpConnection κ × List (List UInt8) × ℤ :=
  if c.connStatus = .kcpReady then
    match c.kcp with
    | some k => ({ c with kcp := some (lib.send k data).1 }, [], (lib.send k data).2)
    | none => (c, [], -1)
  else (c, c.shakehandRequest, -1)

/-- The callback of the timer that `init_kcp` starts. -/
def tick (c : KcpConnection κ) (now : UInt32) : KcpConnection κ × List (List UInt8) :=
  match c.kcp with
  | some k =>
    if c.connStatus = .kcpReady then
      let r := lib.update k now
      ({ c with kcp := some r.1 }, if c.kcpSock then r.2 else [])
    else (c, [])
  | none => (c, [])

/-- `release`. -/
def release (c : KcpConnection κ) : KcpConnection κ :=
  if c.connStatus = .closed then c
  else { c with
    connStatus := .closed
    heartbeatTimer := false
    kcpTimer := false
    kcpSock := c.kcpSock && c.isPassive
    kcp := none }

/-- `handle_event(EVT_DISCONNECT)`. -/
def disconnected (c : KcpConnection κ) : KcpConnection κ :=
  { c with log := c.log ++ [.disconnect] }

/-- `disconnect`. -/
def disconnect (c : KcpConnection κ) : KcpConnection κ × List (List UInt8) :=
  if c.kcpSock ∧ (c.connStatus = .idle ∨ c.connStatus = .opened ∨ c.connStatus = .kcpReady) then
    ({ c with connStatus := .closing, kcpTimer := false, goodbyes := c.goodbyes + 1 },
      c.sendControl .goodbye c.cid)
  else (c, [])

/-- The completion of the send that `disconnect` starts. -/
def disconnectDone (c : KcpConnection κ) : KcpConnection κ :=
  ({ c with goodbyes := c.goodbyes - 1 }).disconnected.release

/-- The callback of the heartbeat timer, with the milliseconds since the last message. -/
def heartbeatFires (c : KcpConnection κ) (elapseTime : ℤ) : KcpConnection κ × List (List UInt8) :=
  if 3000 < elapseTime then
    if c.isPassive ∨ c.reconnectFlag = false then (c.disconnected.release, [])
    else (c.disconnected, [])
  else (c, c.sendHeartbeat)

/-- A connection that `KcpListener::do_receive` has created and called `listen` on. -/
def listening (cid : UInt32) : KcpConnection κ :=
  { cid := cid, connStatus := .opened, isPassive := true, kcpSock := true, heartbeatTimer := true }

/-- A connection on which `connect` was called, before its request is sent. -/
def connecting (cid : UInt32) (reconn : Bool) : KcpConnection κ :=
  { cid := cid, connStatus := .opened, reconnectFlag := reconn, kcpSock := true,
    heartbeatTimer := true }

/-! ## What a connection keeps -/

variable {lib}

/-- A ready connection has an id, and its `kcp` object was created with it. -/
def Sound (lib : Ikcp κ) (c : KcpConnection κ) : Prop :=
  c.connStatus = .kcpReady → c.cid ≠ 0 ∧ c.kcp.map lib.conv = some c.cid

/-- `c'` is ready only if `c` is, with the same id and the same conversation. -/
def Keeps (lib : Ikcp κ) (c c' : KcpConnection κ) : Prop :=
  c'.connStatus = .kcpReady →
    c.connStatus = .kcpReady ∧ c'.cid = c.cid ∧ c'.kcp.map lib.conv = c.kcp.map lib.conv

/-- The datagram is not a handshake response without an id. -/
def Harmless (d : List UInt8) : Prop :=
  (KcpMsgHead.ofBytes d).type = some .shakehandResponse → (KcpMsgHead.ofBytes d).conv ≠ 0

theorem Keeps.sound {c c' : KcpConnection κ} (h : Keeps lib c c') (hs : Sound lib c) :
    Sound lib c' := by
  intro hready
  obtain ⟨hc, hcid, hconv⟩ := h hready
  rw [hcid, hconv]
  exact hs hc

theorem keeps_refl (c : KcpConnection κ) : Keeps lib c c := fun h ↦ ⟨h, rfl, rfl⟩

theorem harmless_control {t : KcpMsgType} {id : UInt32} (h : t = .shakehandResponse → id ≠ 0) :
    Harmless (KcpMsgHead.control t id).bytes := by
  rw [Harmless, KcpMsgHead.ofBytes_bytes, KcpMsgHead.type_control]
  intro ht
  exact h (Option.some.inj ht)

theorem harmless_of_type_none {d : List UInt8} (h : (KcpMsgHead.ofBytes d).type = none) :
    Harmless d := by
  intro ht
  rw [h] at ht
  exact absurd ht (by simp)

theorem harmless_sendControl {c : KcpConnection κ} {t : KcpMsgType} {id : UInt32}
    (h : t = .shakehandResponse → id ≠ 0) : ∀ d ∈ c.sendControl t id, Harmless d := by
  intro d hd
  rw [sendControl] at hd
  split_ifs at hd with hsock
  · rw [List.mem_singleton.mp hd]
    exact harmless_control h
  · exact absurd hd List.not_mem_nil

theorem harmless_shakehandRequest (c : KcpConnection κ) (id : UInt32) :
    ∀ d ∈ c.shakehandRequest id, Harmless d :=
  harmless_sendControl (by simp)

theorem harmless_shakehandResponse {c : KcpConnection κ} {id : UInt32} (hid : id ≠ 0) :
    ∀ d ∈ c.shakehandResponse id, Harmless d :=
  harmless_sendControl fun _ ↦ by rwa [if_neg hid]

/-! ### Calls, timers and data -/

variable (lib)

theorem keeps_send (c : KcpConnection κ) (data : List UInt8) :
    Keeps lib c (c.send lib data).1 ∧ ∀ d ∈ (c.send lib data).2.1, Harmless d := by
  rw [send]
  split_ifs with hready
  · cases hk : c.kcp with
    | none => exact ⟨keeps_refl c, by simp⟩
    | some k =>
      refine ⟨fun _ ↦ ⟨hready, rfl, ?_⟩, by simp⟩
      rw [hk, Option.map_some, Option.map_some, lib.conv_send]
  · exact ⟨keeps_refl c, harmless_shakehandRequest c 0⟩

theorem keeps_tick (c : KcpConnection κ) (now : UInt32) :
    Keeps lib c (c.tick lib now).1 ∧ ∀ d ∈ (c.tick lib now).2, Harmless d := by
  rw [tick]
  cases hk : c.kcp with
  | none => exact ⟨keeps_refl c, by simp⟩
  | some k =>
    simp only
    split_ifs with hready hsock
    · refine ⟨fun _ ↦ ⟨hready, rfl, ?_⟩,
        fun d hd ↦ harmless_of_type_none (lib.type_update k now d hd)⟩
      rw [hk, Option.map_some, Option.map_some, lib.conv_update]
    · refine ⟨fun _ ↦ ⟨hready, rfl, ?_⟩, by simp⟩
      rw [hk, Option.map_some, Option.map_some, lib.conv_update]
    · exact ⟨keeps_refl c, by simp⟩

theorem release_not_ready (c : KcpConnection κ) : c.release.connStatus ≠ .kcpReady := by
  rw [release]
  split_ifs with h
  · rw [h]
    decide
  · exact (by decide : ConnectionStatus.closed ≠ .kcpReady)

theorem keeps_release (c c' : KcpConnection κ) : Keeps lib c c'.release :=
  fun h ↦ absurd h (release_not_ready c')

theorem keeps_disconnect (c : KcpConnection κ) :
    Keeps lib c c.disconnect.1 ∧ ∀ d ∈ c.disconnect.2, Harmless d := by
  rw [disconnect]
  split_ifs
  · exact ⟨fun h ↦ absurd h (by simp), harmless_sendControl (by simp)⟩
  · exact ⟨keeps_refl c, by simp⟩

theorem keeps_heartbeatFires (c : KcpConnection κ) (elapseTime : ℤ) :
    Keeps lib c (c.heartbeatFires elapseTime).1
      ∧ ∀ d ∈ (c.heartbeatFires elapseTime).2, Harmless d := by
  rw [heartbeatFires]
  split_ifs
  · exact ⟨keeps_release lib c _, by simp⟩
  · exact ⟨fun h ↦ ⟨h, rfl, rfl⟩, by simp⟩
  · exact ⟨keeps_refl c, harmless_sendControl (by simp)⟩

/-- Whatever the object has to deliver, the connection stays what it is. -/
theorem drain_frame (dataLen fuel recvLen : ℕ) (c : KcpConnection κ) (k : κ) :
    (drain lib dataLen fuel recvLen c k).connStatus = c.connStatus
      ∧ (drain lib dataLen fuel recvLen c k).cid = c.cid
      ∧ (drain lib dataLen fuel recvLen c k).kcp.map lib.conv = some (lib.conv k) := by
  induction fuel generalizing recvLen c k with
  | zero => exact ⟨rfl, rfl, rfl⟩
  | succ fuel ih =>
    rw [drain]
    split_ifs
    · have hconv := lib.conv_recv k kMaxMessageLength
      split
      · rename_i k' msg hrecv
        rw [hrecv] at hconv
        split_ifs
        · obtain ⟨hst, hcid, hk⟩ := ih (recvLen + (lib.peeksize k).toNat)
            { c with log := c.log ++ [.package msg, .recv] } k'
          exact ⟨hst, hcid, hk.trans (congrArg some hconv)⟩
        · exact ⟨rfl, rfl, congrArg some hconv⟩
      · rename_i k' hrecv
        rw [hrecv] at hconv
        exact ⟨rfl, rfl, congrArg some hconv⟩
    · exact ⟨rfl, rfl, rfl⟩

theorem handleReceive_frame (c : KcpConnection κ) (data : List UInt8) :
    (c.handleReceive lib data).connStatus = c.connStatus
      ∧ (c.handleReceive lib data).cid = c.cid
      ∧ (c.handleReceive lib data).kcp.map lib.conv = c.kcp.map lib.conv := by
  rw [handleReceive]
  cases hk : c.kcp with
  | none =>
    simp only
    exact ⟨trivial, trivial, trivial⟩
  | some k =>
    have hconv := lib.conv_input k data
    simp only
    split_ifs
    · exact ⟨rfl, rfl, congrArg some hconv⟩
    · obtain ⟨hst, hcid, hmap⟩ := drain_frame lib data.length data.length 0
        { c with kcp := some k, log := c.log ++ [.receive data] } (lib.input k data).1
      exact ⟨hst, hcid, hmap.trans (congrArg some hconv)⟩

/-! ### Control messages -/

variable {lib}

/-- The connection has become ready with the id, and answers with nothing else. -/
structure ReadyWith (lib : Ikcp κ) (r : Checked κ) (id : UInt32) : Prop where
  ready : r.conn.connStatus = .kcpReady
  cid : r.conn.cid = id
  conv : r.conn.kcp.map lib.conv = some id
  sent : id ≠ 0 → ∀ d ∈ r.sent, Harmless d

/-- The connection has not become ready. -/
structure Unready (c : KcpConnection κ) (r : Checked κ) : Prop where
  status : r.conn.connStatus = c.connStatus
  sent : ∀ d ∈ r.sent, Harmless d

/-- The id under which a request in `CONN_OPEN` makes the connection ready, or zero. -/
def requestedId (c : KcpConnection κ) (serverConvIndex conv : UInt32) : UInt32 :=
  if conv ≠ 0 then conv
  else if c.cid ≠ 0 then c.cid
  else if c.isPassive then serverConvIndex else 0

variable (lib) in
theorem requestOnOpen_eq (c : KcpConnection κ) (serverConvIndex conv : UInt32) :
    ∃ index, c.requestOnOpen lib serverConvIndex conv
      = let c' := { c with cid := c.requestedId serverConvIndex conv }
        if c'.cid ≠ 0 then ⟨(c'.initKcp lib).connected, index, c'.shakehandResponse c'.cid, true⟩
        else ⟨c', index, [], true⟩ := by
  rw [requestOnOpen, requestedId]
  by_cases hconv : conv = 0
  · by_cases hcid : c.cid = 0
    · by_cases hp : c.isPassive = true
      · exact ⟨serverConvIndex + 1, by simp [hconv, hcid, hp]⟩
      · exact ⟨serverConvIndex, by simp [hconv, hcid, hp]⟩
    · exact ⟨serverConvIndex, by simp [hconv, hcid]⟩
  · exact ⟨serverConvIndex, by simp [hconv]⟩

theorem requestOnOpen_readyWith {c : KcpConnection κ} {serverConvIndex conv : UInt32}
    (h : c.requestedId serverConvIndex conv ≠ 0) :
    ReadyWith lib (c.requestOnOpen lib serverConvIndex conv)
      (c.requestedId serverConvIndex conv) := by
  obtain ⟨index, heq⟩ := requestOnOpen_eq lib c serverConvIndex conv
  rw [heq]
  simp only [if_pos h]
  exact ⟨rfl, rfl, congrArg some (lib.conv_create _), harmless_shakehandResponse⟩

theorem requestOnOpen_unready {c : KcpConnection κ} {serverConvIndex conv : UInt32}
    (h : c.requestedId serverConvIndex conv = 0) :
    Unready c (c.requestOnOpen lib serverConvIndex conv) := by
  obtain ⟨index, heq⟩ := requestOnOpen_eq lib c serverConvIndex conv
  rw [heq]
  simp only [h, ne_eq, not_true_eq_false, if_false]
  exact ⟨rfl, by simp⟩

/-- **A ready connection keeps its id**, whatever message it handles. -/
theorem checkControlMessage_of_ready {c : KcpConnection κ} (hready : c.connStatus = .kcpReady)
    (hs : Sound lib c) (serverConvIndex : UInt32) (head : KcpMsgHead) :
    ReadyWith lib (c.checkControlMessage lib serverConvIndex head) c.cid := by
  obtain ⟨hcid, hconv⟩ := hs hready
  rw [checkControlMessage, hready]
  simp only [hcid, and_false, if_false]
  split
  · exact ⟨rfl, rfl, congrArg some (lib.conv_create _), harmless_shakehandResponse⟩
  · exact ⟨rfl, rfl, congrArg some (lib.conv_create _), by simp⟩
  · exact ⟨hready, rfl, hconv, by simp⟩
  · exact ⟨hready, rfl, hconv, by simp⟩

variable (lib) in
theorem checkControlMessage_of_inactive {c : KcpConnection κ} (hopen : c.connStatus ≠ .opened)
    (hready : c.connStatus ≠ .kcpReady) (serverConvIndex : UInt32) (head : KcpMsgHead) :
    Unready c (c.checkControlMessage lib serverConvIndex head) := by
  rw [checkControlMessage]
  split
  · exact absurd ‹_› hopen
  · exact absurd ‹_› hready
  · split <;> exact ⟨rfl, by simp⟩

theorem receive_of_ready {c : KcpConnection κ} (hready : c.connStatus = .kcpReady)
    (hs : Sound lib c) (serverConvIndex : UInt32) (head : KcpMsgHead) (data : List UInt8) :
    ReadyWith lib (c.receive lib serverConvIndex head data) c.cid := by
  have h := checkControlMessage_of_ready hready hs serverConvIndex head
  rw [receive]
  split
  · exact h
  · obtain ⟨hst, hcid, hconv⟩ := handleReceive_frame lib
      (c.checkControlMessage lib serverConvIndex head).conn data
    exact ⟨hst.trans h.ready, hcid.trans h.cid, hconv.trans h.conv, h.sent⟩

variable (lib) in
theorem receive_of_inactive {c : KcpConnection κ} (hopen : c.connStatus ≠ .opened)
    (hready : c.connStatus ≠ .kcpReady) (serverConvIndex : UInt32) (head : KcpMsgHead)
    (data : List UInt8) : Unready c (c.receive lib serverConvIndex head data) := by
  have h := checkControlMessage_of_inactive lib hopen hready serverConvIndex head
  rw [receive]
  split
  · exact h
  · obtain ⟨hst, -, -⟩ := handleReceive_frame lib
      (c.checkControlMessage lib serverConvIndex head).conn data
    exact ⟨hst.trans h.status, h.sent⟩

variable (lib) in
theorem receive_of_open {c : KcpConnection κ} (hopen : c.connStatus = .opened)
    (serverConvIndex : UInt32) (head : KcpMsgHead) (data : List UInt8) :
    c.receive lib serverConvIndex head data
      = match head.type with
        | some .shakehandRequest => c.requestOnOpen lib serverConvIndex head.conv
        | some .shakehandResponse =>
          let c := if c.cid = 0 then { c with cid := head.conv } else c
          ⟨(c.initKcp lib).connected, serverConvIndex, [], true⟩
        | some .heartbeat => ⟨c, serverConvIndex, [], true⟩
        | _ => ⟨c, serverConvIndex, c.shakehandRequest, true⟩ := by
  have hcontrol : (c.requestOnOpen lib serverConvIndex head.conv).control = true := by
    obtain ⟨index, heq⟩ := requestOnOpen_eq lib c serverConvIndex head.conv
    rw [heq]
    dsimp only
    split_ifs <;> rfl
  rw [receive, checkControlMessage, hopen]
  rcases head.type with _ | t
  · rfl
  · cases t
    · exact if_pos hcontrol
    · rfl
    · rfl
    · rfl

end KcpConnection

end Knet.Kcp
